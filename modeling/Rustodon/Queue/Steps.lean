import Rustodon.Queue.Machine

/-! @src jobs.rs | name:What a step of the queue can do | scheme:leases, row locks | family:queue

    One inversion lemma for the statements on rows of jobs, and one for the transactions: the
    invariants of the queue are derived from these. -/

namespace Rustodon.Queue
open Schemes.Checked Schemes.Json

variable {env : Env} {s s' : State} {op : Op} {t : TxnId} {spec : JobSpec}

/-- The lease that a statement is issued with. -/
def Op.token : Op → Option Token
  | .renew id leaseOwner generation _ => some ⟨id, leaseOwner, generation⟩
  | .mergeJobArguments job _ => some job.token
  | .initializeJobArguments job _ => some job.token
  | .complete id leaseOwner generation => some ⟨id, leaseOwner, generation⟩
  | .retry job _ _ => some job.token
  | .deadLetter job _ => some job.token
  | _ => none

/-- Whether the caller is told that its statement took effect. -/
def Response.effective : Response → Bool
  | .flag value => value
  | .retried result => result != .lost
  | .arguments value => value.isSome
  | _ => false

/-- What a fenced statement makes of the row. -/
inductive FencedEffect (now : ℤ) (job : Job) : Op → Option Job → Prop where
  | renewed (id : ℕ) (leaseOwner : String) (generation : ℕ) (leaseMilliseconds : ℤ) :
    FencedEffect now job (.renew id leaseOwner generation leaseMilliseconds)
      (some { job with status := .leased leaseOwner (now + leaseMilliseconds * 1000) })
  | merged (claimed : ClaimedJob) {patch : Value} (hpatch : patch.isObject = true) :
    FencedEffect now job (.mergeJobArguments claimed patch)
      (some { job with arguments := concat job.arguments patch })
  | initialized (claimed : ClaimedJob) {patch : Value} (hpatch : patch.isObject = true) :
    FencedEffect now job (.initializeJobArguments claimed patch)
      (some { job with arguments := concat patch job.arguments })
  | completed (id : ℕ) (leaseOwner : String) (generation : ℕ) :
    FencedEffect now job (.complete id leaseOwner generation) none
  | exhausted (claimed : ClaimedJob) (runAt : ℤ) (error : String) :
    FencedEffect now job (.retry claimed runAt error) (some (job.dead now error))
  | retried (claimed : ClaimedJob) (runAt : ℤ) (error : String) :
    FencedEffect now job (.retry claimed runAt error) (some { job with
      status := .waiting, lastError := some (bounded error maxErrorBytes), runAt := runAt })
  | dead (claimed : ClaimedJob) (error : String) :
    FencedEffect now job (.deadLetter claimed error) (some (job.dead now error))

/-- A statement that is issued with a token fails on its input, or acts under the fence and tells
    whether it did. -/
theorem statement_token {statement : Statement} {token : Token}
    (h : Queue.statement env s op = some statement) (htoken : op.token = some token) :
    (∃ error, statement = .skip (.failed error)) ∨
    ∃ effect response, statement = fenced s.jobs s.now token effect response ∧
      (∀ row, (response row).effective = row.isSome) ∧
      ∀ job, FencedEffect s.now job op (effect job) := by
  cases op with
  | renew id leaseOwner generation leaseMilliseconds =>
    obtain rfl := Option.some.inj h
    obtain rfl := Option.some.inj htoken
    rw [renew]
    cases validateLease leaseOwner leaseMilliseconds with
    | error error => exact .inl ⟨error, rfl⟩
    | ok u => exact .inr ⟨_, _, rfl, fun _ => rfl, fun _ => .renewed ..⟩
  | mergeJobArguments job patch =>
    obtain rfl := Option.some.inj h
    obtain rfl := Option.some.inj htoken
    rw [mergeJobArguments]
    split_ifs with hpatch
    · exact .inl ⟨_, rfl⟩
    · exact .inr ⟨_, _, rfl, fun _ => rfl, fun _ => .merged _ (by simpa using hpatch)⟩
  | initializeJobArguments job patch =>
    obtain rfl := Option.some.inj h
    obtain rfl := Option.some.inj htoken
    rw [initializeJobArguments]
    split_ifs with hpatch
    · exact .inl ⟨_, rfl⟩
    · exact .inr ⟨_, _, rfl, fun row => by cases row <;> rfl,
        fun _ => .initialized _ (by simpa using hpatch)⟩
  | complete id leaseOwner generation =>
    obtain rfl := Option.some.inj h
    obtain rfl := Option.some.inj htoken
    exact .inr ⟨_, _, rfl, fun _ => rfl, fun _ => .completed ..⟩
  | retry job runAt error =>
    obtain rfl := Option.some.inj h
    obtain rfl := Option.some.inj htoken
    rw [retry]
    split_ifs
    · exact .inr ⟨_, _, rfl, fun row => by cases row <;> rfl, fun _ => .exhausted ..⟩
    · exact .inr ⟨_, _, rfl, fun row => by cases row <;> rfl, fun _ => .retried ..⟩
  | deadLetter job error =>
    obtain rfl := Option.some.inj h
    obtain rfl := Option.some.inj htoken
    exact .inr ⟨_, _, rfl, fun _ => rfl, fun _ => .dead ..⟩
  | _ => cases htoken

/-- What a statement makes of one row. -/
inductive Effect (env : Env) (s : State) (op : Op) (job : Job) : Option Job → Prop where
  | unchanged : Effect env s op job (some job)
  | claimed {leaseOwner : String} {lanes : List Lane} {leaseMilliseconds : ℤ} {skipped : List ℕ}
    {found : Job} (hop : op = .claim leaseOwner lanes leaseMilliseconds skipped)
    (hlease : validateLease leaseOwner leaseMilliseconds = .ok ())
    (hfound : candidate env s.jobs lanes s.now skipped = some found) (hid : job.id = found.id) :
    Effect env s op job (some (job.claimed leaseOwner s.now leaseMilliseconds))
  | fenced {token : Token} {job' : Option Job} (htoken : op.token = some token)
    (hfences : token.fences s.now job = true) (heffect : FencedEffect s.now job op job') :
    Effect env s op job job'
  | cancelled {kind logicalKey : String} (hop : op = .cancelJobs kind logicalKey)
    (hcancel : cancellable s.now kind logicalKey job = true) : Effect env s op job none

/-- The statements are `claim`, `cancel` and those under the fence. -/
theorem statement_cases {statement : Statement} (h : Queue.statement env s op = some statement) :
    (∃ leaseOwner lanes leaseMilliseconds skipped,
      op = .claim leaseOwner lanes leaseMilliseconds skipped ∧
      statement = claim env s.jobs s.now leaseOwner lanes leaseMilliseconds skipped) ∨
    (∃ kind logicalKey, op = .cancelJobs kind logicalKey ∧
      statement = cancelJobs s.jobs s.now kind logicalKey) ∨
    ∃ token, op.token = some token := by
  cases op with
  | claim => exact .inl ⟨_, _, _, _, rfl, (Option.some.inj h).symm⟩
  | cancelJobs => exact .inr (.inl ⟨_, _, rfl, (Option.some.inj h).symm⟩)
  | renew => exact .inr (.inr ⟨_, rfl⟩)
  | mergeJobArguments => exact .inr (.inr ⟨_, rfl⟩)
  | initializeJobArguments => exact .inr (.inr ⟨_, rfl⟩)
  | complete => exact .inr (.inr ⟨_, rfl⟩)
  | retry => exact .inr (.inr ⟨_, rfl⟩)
  | deadLetter => exact .inr (.inr ⟨_, rfl⟩)
  | _ => cases h

/-- A claim that answers with a job has leased the candidate, and nothing else changes; otherwise it
    does nothing. -/
theorem claim_cases (env : Env) (jobs : List Job) (now : ℤ) (leaseOwner : String) (lanes : List Lane)
    (leaseMilliseconds : ℤ) (skipped : List ℕ) :
    (∃ response, claim env jobs now leaseOwner lanes leaseMilliseconds skipped = .skip response ∧
      ∀ job, response ≠ .claimed (some job)) ∨
    ∃ found, validateLease leaseOwner leaseMilliseconds = .ok () ∧
      candidate env jobs lanes now skipped = some found ∧
      claim env jobs now leaseOwner lanes leaseMilliseconds skipped =
        { effect := fun job =>
            some (if job.id = found.id then job.claimed leaseOwner now leaseMilliseconds else job)
          response := .claimed (some (claimedJob (found.claimed leaseOwner now leaseMilliseconds)
            leaseOwner (now + leaseMilliseconds * 1000))) } := by
  rw [claim]
  cases hlease : validateLease leaseOwner leaseMilliseconds with
  | error error => exact .inl ⟨_, rfl, fun _ => by simp⟩
  | ok u =>
    split_ifs with hlanes
    · exact .inl ⟨_, rfl, fun _ => by simp⟩
    · cases hfound : candidate env jobs lanes now skipped with
      | none => exact .inl ⟨_, rfl, fun _ => by simp⟩
      | some found => exact .inr ⟨found, rfl, rfl, rfl⟩

theorem statement_effect {statement : Statement}
    (h : Queue.statement env s op = some statement) (job : Job) :
    Effect env s op job (statement.effect job) := by
  rcases statement_cases h with ⟨leaseOwner, lanes, leaseMilliseconds, skipped, hop, rfl⟩ |
    ⟨kind, logicalKey, hop, rfl⟩ | ⟨token, htoken⟩
  · rcases claim_cases env s.jobs s.now leaseOwner lanes leaseMilliseconds skipped with
      ⟨response, heq, -⟩ | ⟨found, hlease, hfound, heq⟩
    · rw [heq]
      exact .unchanged
    · rw [heq]
      by_cases hid : job.id = found.id
      · simp only [if_pos hid]
        exact .claimed hop hlease hfound hid
      · simp only [if_neg hid]
        exact .unchanged
  · by_cases hcancel : cancellable s.now kind logicalKey job = true
    · simp only [cancelJobs, if_pos hcancel]
      exact .cancelled hop hcancel
    · simp only [cancelJobs, if_neg hcancel]
      exact .unchanged
  · rcases statement_token h htoken with ⟨error, rfl⟩ | ⟨effect, response, rfl, -, heffect⟩
    · exact .unchanged
    · by_cases hfences : token.fences s.now job = true
      · simp only [fenced, if_pos hfences]
        exact .fenced htoken hfences (heffect job)
      · simp only [fenced, if_neg hfences]
        exact .unchanged

/-- The statement that a fenced row answers took effect on it, and one without such a row changes
    nothing. -/
theorem statement_effective {statement : Statement} {token : Token}
    (h : Queue.statement env s op = some statement) (htoken : op.token = some token) :
    (statement.response.effective = true → ∃ job ∈ s.jobs, token.fences s.now job = true) ∧
    (statement.response.effective = false → ∀ job ∈ s.jobs, statement.effect job = some job) := by
  rcases statement_token h htoken with ⟨error, rfl⟩ | ⟨effect, response, rfl, hresponse, -⟩
  · exact ⟨fun h => Bool.noConfusion h, fun _ _ _ => rfl⟩
  · rw [fenced, hresponse]
    refine ⟨fun hsome => ?_, fun hnone job hmem => ?_⟩
    · obtain ⟨job, hjob⟩ := Option.isSome_iff_exists.mp hsome
      exact ⟨job, List.mem_of_find?_eq_some hjob, List.find?_some hjob⟩
    · have hnone : s.jobs.find? (token.fences s.now) = none := by simpa using hnone
      exact if_neg (List.find?_eq_none.mp hnone job hmem)

/-! ### Transactions -/

/-- What a transaction does to the jobs. -/
inductive JobsChange (s : State) : State → Prop where
  | frame {s' : State} (hnow : s'.now = s.now) (hjobs : s'.jobs = s.jobs)
    (hpending : s'.pendingJobs = s.pendingJobs) (hnext : s.nextJobId ≤ s'.nextJobId) :
    JobsChange s s'
  | inserted {s' : State} (t : TxnId) (spec : JobSpec) (hnow : s'.now = s.now)
    (hjobs : s'.jobs = s.jobs)
    (hpending : s'.pendingJobs = s.pendingJobs ++ [(t, Job.new s.nextJobId spec)])
    (hnext : s'.nextJobId = s.nextJobId + 1)
    (hfree : ∀ job, job ∈ s.jobs ∨ job ∈ s.pendingJobs.map Prod.snd → conflicts spec job = false) :
    JobsChange s s'
  | committed {s' : State} (t : TxnId) (hnow : s'.now = s.now)
    (hjobs : s'.jobs = s.jobs ++ own t s.pendingJobs)
    (hpending : s'.pendingJobs = others t s.pendingJobs) (hnext : s'.nextJobId = s.nextJobId) :
    JobsChange s s'
  | rolledBack {s' : State} (t : TxnId) (hnow : s'.now = s.now) (hjobs : s'.jobs = s.jobs)
    (hpending : s'.pendingJobs = others t s.pendingJobs) (hnext : s'.nextJobId = s.nextJobId) :
    JobsChange s s'

theorem mem_own_or_others {α : Type} {pending : List (TxnId × α)} {row : TxnId × α} (t : TxnId)
    (h : row ∈ pending) : row.2 ∈ own t pending ∨ row ∈ others t pending := by
  by_cases ht : row.1 = t
  · exact .inl (List.mem_map_of_mem (List.mem_filter.mpr ⟨h, by simpa using ht⟩))
  · exact .inr (List.mem_filter.mpr ⟨h, by simpa using ht⟩)

theorem mem_own {α : Type} {pending : List (TxnId × α)} {a : α} :
    a ∈ own t pending ↔ (t, a) ∈ pending := by
  simp only [own, List.mem_map, List.mem_filter, beq_iff_eq]
  constructor
  · rintro ⟨⟨t', a'⟩, ⟨hmem, rfl⟩, rfl⟩
    exact hmem
  · intro hmem
    exact ⟨(t, a), ⟨hmem, rfl⟩, rfl⟩

theorem mem_others {α : Type} {pending : List (TxnId × α)} {row : TxnId × α} :
    row ∈ others t pending ↔ row ∈ pending ∧ row.1 ≠ t := by
  simp [others]

/-- The spec lemma of the insertion: the row in the way, or a new row with no row in the way. -/
theorem insertJob_cases {id : ℕ} {inserted : Bool} (h : s.insertJob t spec = some (s', id, inserted)) :
    (inserted = false ∧ s' = { s with nextJobId := s.nextJobId + 1 } ∧
      ∃ job, (job ∈ s.jobs ∨ (t, job) ∈ s.pendingJobs) ∧ job.id = id ∧ conflicts spec job = true) ∨
    (inserted = true ∧ id = s.nextJobId ∧
      s' = { s with
        nextJobId := s.nextJobId + 1
        pendingJobs := s.pendingJobs ++ [(t, Job.new s.nextJobId spec)] } ∧
      ∀ job, job ∈ s.jobs ∨ job ∈ s.pendingJobs.map Prod.snd → conflicts spec job = false) := by
  rw [State.insertJob] at h
  split_ifs at h with hothers
  cases hfind : (s.jobs ++ own t s.pendingJobs).find? (conflicts spec) with
  | some job =>
    rw [hfind] at h
    obtain ⟨rfl, rfl, rfl⟩ : { s with nextJobId := s.nextJobId + 1 } = s' ∧ job.id = id ∧
        false = inserted := by simpa using h
    have hmem := List.mem_append.mp (List.mem_of_find?_eq_some hfind)
    exact .inl ⟨rfl, rfl, job, hmem.imp_right mem_own.mp, rfl, List.find?_some hfind⟩
  | none =>
    rw [hfind] at h
    obtain ⟨rfl, rfl, rfl⟩ : { s with
        nextJobId := s.nextJobId + 1
        pendingJobs := s.pendingJobs ++ [(t, Job.new s.nextJobId spec)] } = s' ∧
        s.nextJobId = id ∧ true = inserted := by simpa using h
    refine .inr ⟨rfl, rfl, rfl, fun job hjob => ?_⟩
    have hnone := List.find?_eq_none.mp hfind
    rcases hjob with hjob | hjob
    · simpa using hnone job (List.mem_append_left _ hjob)
    · obtain ⟨row, hrow, rfl⟩ := List.mem_map.mp hjob
      rcases mem_own_or_others t hrow with hown | hother
      · simpa using hnone row.2 (List.mem_append_right _ hown)
      · have hothers : ∀ row ∈ others t s.pendingJobs, conflicts spec row.2 = false := by
          simpa using hothers
        exact hothers row hother

theorem enqueue_cases {response : Response} (h : s.enqueue t spec = some (s', response)) :
    (∃ error, s' = s ∧ response = .failed error) ∨
    ∃ id inserted, spec.validate = .ok () ∧ s.insertJob t spec = some (s', id, inserted) ∧
      response = .id id := by
  rw [State.enqueue] at h
  cases hvalid : spec.validate with
  | error error =>
    rw [hvalid] at h
    obtain ⟨rfl, rfl⟩ := Prod.mk.inj (Option.some.inj h)
    exact .inl ⟨error, rfl, rfl⟩
  | ok u =>
    rw [hvalid] at h
    obtain ⟨⟨s₁, id, inserted⟩, hinsert, heq⟩ := Option.map_eq_some_iff.mp h
    obtain ⟨rfl, rfl⟩ := Prod.mk.inj heq
    exact .inr ⟨id, inserted, rfl, hinsert, rfl⟩

variable {call : OrderedCall} {caller : Option (Event × List Event)}

/-- The first statement of an ordered enqueue moves on, and may put in the marker. -/
theorem insertMarker_cases (h : s.insertMarker t call caller = some s') :
    s' = s.setStage t (.ordered call .select caller) ∨
    s.markerLocks call.markerKey = none ∧ s.markers call.markerKey = none ∧ ∃ written,
      s' = (s.setStage t (.ordered call .select caller)).holdMarker t call.markerKey written := by
  rw [State.insertMarker] at h
  cases hlock : s.markerLocks call.markerKey with
  | none =>
    cases hmarker : s.markers call.markerKey with
    | none =>
      rw [hlock, hmarker] at h
      exact .inr ⟨rfl, rfl, _, (Option.some.inj h).symm⟩
    | some marker =>
      rw [hlock, hmarker] at h
      exact .inl (Option.some.inj h).symm
  | some lock =>
    cases hmarker : s.markers call.markerKey with
    | none =>
      rw [hlock, hmarker] at h
      simp only at h
      split_ifs at h
      exact .inl (Option.some.inj h).symm
    | some marker =>
      rw [hlock, hmarker] at h
      exact .inl (Option.some.inj h).symm

/-- The second statement reads the marker under its lock, unless the marker has gone. -/
theorem selectMarker_cases (h : s.selectMarker t call caller = some s') : ∃ previous,
    ((∃ lock, s.markerLocks call.markerKey = some lock ∧ lock.holder = t ∧
        s' = s.setStage t (.ordered call (.enqueue previous) caller)) ∨
      (s.markerLocks call.markerKey = none ∧ s' =
        (s.setStage t (.ordered call (.enqueue previous) caller)).holdMarker t call.markerKey none) ∨
      (s.markerLocks call.markerKey = none ∧ s.markers call.markerKey = none ∧
        s' = s.setStage t (.ordered call (.enqueue previous) caller))) := by
  rw [State.selectMarker] at h
  cases hlock : s.markerLocks call.markerKey with
  | some lock =>
    rw [hlock] at h
    simp only at h
    split_ifs at h with hholder
    exact ⟨_, .inl ⟨lock, rfl, hholder, (Option.some.inj h).symm⟩⟩
  | none =>
    rw [hlock] at h
    cases hmarker : s.markers call.markerKey with
    | some marker =>
      rw [hmarker] at h
      exact ⟨_, .inr (.inl ⟨rfl, (Option.some.inj h).symm⟩)⟩
    | none =>
      rw [hmarker] at h
      exact ⟨_, .inr (.inr ⟨rfl, rfl, (Option.some.inj h).symm⟩)⟩

/-- The third statement fails on its input, or is the insertion of the job with its metadata. -/
theorem enqueueOrderedSpec_cases {previous : Option (ℤ × Option ℕ)} {response : Response}
    (h : s.enqueueOrderedSpec t call previous caller = some (s', response)) :
    (∃ error, s' = s.rollback t ∧ response = .failed error ∧
      (withOrderingMetadata call.spec call.orderingKey (previous.bind Prod.snd)
          (orderedRunAt call.spec previous) = .error error ∨
        ∃ spec, withOrderingMetadata call.spec call.orderingKey (previous.bind Prod.snd)
          (orderedRunAt call.spec previous) = .ok spec ∧ spec.validate = .error error)) ∨
    ∃ spec s₁ id inserted,
      withOrderingMetadata call.spec call.orderingKey (previous.bind Prod.snd)
        (orderedRunAt call.spec previous) = .ok spec ∧ spec.validate = .ok () ∧
      s.insertJob t spec = some (s₁, id, inserted) ∧ response = .done ∧
      s' = s₁.setStage t (.ordered call (.upsert id (orderedRunAt call.spec previous)) caller) := by
  rw [State.enqueueOrderedSpec] at h
  simp only at h
  cases hmetadata : withOrderingMetadata call.spec call.orderingKey (previous.bind Prod.snd)
      (orderedRunAt call.spec previous) with
  | error error =>
    rw [hmetadata] at h
    obtain ⟨rfl, rfl⟩ := Prod.mk.inj (Option.some.inj h)
    exact .inl ⟨error, rfl, rfl, .inl rfl⟩
  | ok spec =>
    rw [hmetadata] at h
    simp only at h
    cases hvalid : spec.validate with
    | error error =>
      rw [hvalid] at h
      obtain ⟨rfl, rfl⟩ := Prod.mk.inj (Option.some.inj h)
      exact .inl ⟨error, rfl, rfl, .inr ⟨spec, rfl, hvalid⟩⟩
    | ok u =>
      rw [hvalid] at h
      obtain ⟨⟨s₁, id, inserted⟩, hinsert, heq⟩ := Option.map_eq_some_iff.mp h
      obtain ⟨rfl, rfl⟩ := Prod.mk.inj heq
      exact .inr ⟨spec, s₁, id, inserted, rfl, hvalid, hinsert, rfl, rfl⟩

/-- The last statement takes the marker, and goes back to the caller. -/
theorem upsertMarker_cases {id : ℕ} {runAt : ℤ} {response : Response}
    (h : s.upsertMarker t call id runAt caller = some (s', response)) :
    (∀ lock, s.markerLocks call.markerKey = some lock → lock.holder = t) ∧ ∃ written,
      (caller = none ∧ s' = (s.holdMarker t call.markerKey written).setStage t .idle ∧
        response = .id id) ∨
      ∃ event rest, caller = some (event, rest) ∧ response = .done ∧
        s' = (s.holdMarker t call.markerKey written).markDispatched t event rest := by
  rw [State.upsertMarker] at h
  split_ifs at h with hlock
  refine ⟨fun lock hsome => ?_, some ⟨runAt, some id, markerExpiry s.now runAt⟩, ?_⟩
  · rw [hsome] at hlock
    simpa using hlock
  · cases caller with
    | none =>
      obtain ⟨rfl, rfl⟩ := Prod.mk.inj (Option.some.inj h)
      exact .inl ⟨rfl, rfl, rfl⟩
    | some caller =>
      obtain ⟨event, rest⟩ := caller
      obtain ⟨rfl, rfl⟩ := Prod.mk.inj (Option.some.inj h)
      exact .inr ⟨event, rest, rfl, rfl, rfl⟩

variable {event : Event} {rest : List Event}

/-- A turn of the loop fails on the row, starts an ordered enqueue, or inserts the job and marks the
    event; where a live job is in the way, it does neither. -/
theorem dispatchEvent_cases {response : Response}
    (h : s.dispatchEvent env t event rest = some (s', response)) :
    (∃ error, s' = s.rollback t ∧ response = .failed error ∧
      (outboxSpec env event.kind event.logicalKey event.payload = .error error ∨
        ∃ spec, outboxSpec env event.kind event.logicalKey event.payload = .ok spec ∧
          spec.validate = .error error)) ∨
    (∃ spec orderingKey, outboxSpec env event.kind event.logicalKey event.payload = .ok spec ∧
      activitypubDeliveryOrderingKey env spec = some orderingKey ∧ response = .done ∧
      s.insertMarker t ⟨spec, orderingKey, activitypubDeliveryOrderingKind⟩ (some (event, rest)) =
        some s') ∨
    ∃ spec s₁ id inserted, outboxSpec env event.kind event.logicalKey event.payload = .ok spec ∧
      activitypubDeliveryOrderingKey env spec = none ∧ response = .done ∧
      s.insertJob t spec = some (s₁, id, inserted) ∧
      (inserted = true ∧ s' = s₁.markDispatched t event rest ∨
        inserted = false ∧ s' = s₁.setStage t (.dispatching rest)) := by
  rw [State.dispatchEvent] at h
  cases hspec : outboxSpec env event.kind event.logicalKey event.payload with
  | error error =>
    rw [hspec] at h
    obtain ⟨rfl, rfl⟩ := Prod.mk.inj (Option.some.inj h)
    exact .inl ⟨error, rfl, rfl, .inl rfl⟩
  | ok spec =>
    rw [hspec] at h
    simp only at h
    cases hkey : activitypubDeliveryOrderingKey env spec with
    | some orderingKey =>
      rw [hkey] at h
      obtain ⟨s₁, hinsert, heq⟩ := Option.map_eq_some_iff.mp h
      obtain ⟨rfl, rfl⟩ := Prod.mk.inj heq
      exact .inr (.inl ⟨spec, orderingKey, rfl, hkey, rfl, hinsert⟩)
    | none =>
      rw [hkey] at h
      simp only at h
      cases hvalid : spec.validate with
      | error error =>
        rw [hvalid] at h
        obtain ⟨rfl, rfl⟩ := Prod.mk.inj (Option.some.inj h)
        exact .inl ⟨error, rfl, rfl, .inr ⟨spec, rfl, hvalid⟩⟩
      | ok u =>
        rw [hvalid] at h
        obtain ⟨⟨s₁, id, inserted⟩, hinsert, heq⟩ := Option.map_eq_some_iff.mp h
        obtain ⟨rfl, rfl⟩ := Prod.mk.inj heq
        refine .inr (.inr ⟨spec, s₁, id, inserted, rfl, hkey, rfl, hinsert, ?_⟩)
        cases inserted with
        | true => exact .inl ⟨rfl, rfl⟩
        | false => exact .inr ⟨rfl, rfl⟩

/-- Recording an event fails on its input or concerns the events and their locks alone. -/
structure EventsOnly (s s' : State) : Prop where
  now : s'.now = s.now
  jobs : s'.jobs = s.jobs
  pendingJobs : s'.pendingJobs = s.pendingJobs
  nextJobId : s'.nextJobId = s.nextJobId
  markerLocks : s'.markerLocks = s.markerLocks

theorem EventsOnly.refl (s : State) : EventsOnly s s := ⟨rfl, rfl, rfl, rfl, rfl⟩

theorem recordOutbox_eventsOnly {response : Response}
    (h : s.recordOutbox env t spec = some (s', response)) :
    EventsOnly s s' ∧ s'.stages = s.stages := by
  rw [State.recordOutbox] at h
  split at h
  · obtain ⟨rfl, -⟩ := Prod.mk.inj (Option.some.inj h)
    exact ⟨.refl s, rfl⟩
  · split_ifs at h
    split at h
    · obtain ⟨rfl, -⟩ := Prod.mk.inj (Option.some.inj h)
      exact ⟨⟨rfl, rfl, rfl, rfl, rfl⟩, rfl⟩
    · split at h
      · split_ifs at h
        obtain ⟨rfl, -⟩ := Prod.mk.inj (Option.some.inj h)
        exact ⟨⟨rfl, rfl, rfl, rfl, rfl⟩, rfl⟩
      · obtain ⟨rfl, -⟩ := Prod.mk.inj (Option.some.inj h)
        exact ⟨⟨rfl, rfl, rfl, rfl, rfl⟩, rfl⟩

theorem recordOutboxOnce_eventsOnly {response : Response}
    (h : s.recordOutboxOnce env t spec = some (s', response)) :
    EventsOnly s s' ∧ s'.stages = s.stages := by
  rw [State.recordOutboxOnce] at h
  split at h
  · obtain ⟨rfl, -⟩ := Prod.mk.inj (Option.some.inj h)
    exact ⟨.refl s, rfl⟩
  · split_ifs at h
    · obtain ⟨rfl, -⟩ := Prod.mk.inj (Option.some.inj h)
      exact ⟨.refl s, rfl⟩
    · obtain ⟨rfl, -⟩ := Prod.mk.inj (Option.some.inj h)
      exact ⟨⟨rfl, rfl, rfl, rfl, rfl⟩, rfl⟩

theorem cancelEvents_eventsOnly {kind logicalKey : String} {response : Response}
    (h : s.cancelEvents kind logicalKey = some (s', response)) :
    EventsOnly s s' ∧ s'.stages = s.stages := by
  simp only [State.cancelEvents] at h
  split_ifs at h
  obtain ⟨rfl, -⟩ := Prod.mk.inj (Option.some.inj h)
  exact ⟨⟨rfl, rfl, rfl, rfl, rfl⟩, rfl⟩

theorem dispatchOutbox_eventsOnly {limit : ℤ} {skipped : List ℕ} {response : Response}
    (h : s.dispatchOutbox env t limit skipped = some (s', response)) :
    EventsOnly s s' ∧ (s'.stages = s.stages ∨
      ∃ rows, s'.stages = (s.setStage t (.dispatching rows)).stages) := by
  rw [State.dispatchOutbox] at h
  split_ifs at h
  · obtain ⟨rfl, -⟩ := Prod.mk.inj (Option.some.inj h)
    exact ⟨.refl s, .inl rfl⟩
  · obtain ⟨rfl, -⟩ := Prod.mk.inj (Option.some.inj h)
    exact ⟨⟨rfl, rfl, rfl, rfl, rfl⟩, .inr ⟨_, rfl⟩⟩

theorem pruneMarker_eventsOnly {key : MarkerKey} {response : Response}
    (h : s.pruneMarker env key = some (s', response)) :
    EventsOnly s s' ∧ s'.stages = s.stages := by
  rw [State.pruneMarker] at h
  split at h
  · split_ifs at h
    obtain ⟨rfl, -⟩ := Prod.mk.inj (Option.some.inj h)
    exact ⟨⟨rfl, rfl, rfl, rfl, rfl⟩, rfl⟩
  · cases h

theorem whenIdle_eq_some {result : Option (State × Response)} {response : Response}
    (h : s.whenIdle t result = some (s', response)) :
    s.stages t = .idle ∧ result = some (s', response) := by
  rw [State.whenIdle] at h
  split at h
  · next hidle => exact ⟨hidle, h⟩
  · cases h

/-! ### The jobs -/

theorem EventsOnly.jobsChange (h : EventsOnly s s') : JobsChange s s' :=
  .frame h.now h.jobs h.pendingJobs h.nextJobId.ge

theorem insertMarker_jobsChange (h : s.insertMarker t call caller = some s') : JobsChange s s' := by
  rcases insertMarker_cases h with rfl | ⟨-, -, _, rfl⟩
  · exact .frame rfl rfl rfl le_rfl
  · exact .frame rfl rfl rfl le_rfl

theorem insertJob_jobsChange {s₁ : State} {id : ℕ} {inserted : Bool}
    (h : s.insertJob t spec = some (s₁, id, inserted)) (hnow : s'.now = s₁.now)
    (hjobs : s'.jobs = s₁.jobs) (hpending : s'.pendingJobs = s₁.pendingJobs) (hnext : s'.nextJobId = s₁.nextJobId) :
    JobsChange s s' := by
  rcases insertJob_cases h with ⟨-, rfl, -⟩ | ⟨-, -, rfl, hfree⟩
  · exact .frame hnow hjobs hpending (hnext ▸ Nat.le_succ _)
  · exact .inserted t spec hnow hjobs hpending hnext hfree

theorem rollback_jobsChange (s : State) (t : TxnId) : JobsChange s (s.rollback t) :=
  .rolledBack t rfl rfl rfl rfl

theorem next_jobsChange {response : Response} (h : s.next env t = some (s', response)) :
    JobsChange s s' := by
  rw [State.next] at h
  split at h
  · cases h
  · cases h
  · rcases dispatchEvent_cases h with ⟨error, rfl, -⟩ | ⟨spec, orderingKey, -, -, -, hinsert⟩ |
      ⟨spec, s₁, id, inserted, -, -, -, hinsert, ⟨-, rfl⟩ | ⟨-, rfl⟩⟩
    · exact rollback_jobsChange s t
    · exact insertMarker_jobsChange hinsert
    · exact insertJob_jobsChange hinsert rfl rfl rfl rfl
    · exact insertJob_jobsChange hinsert rfl rfl rfl rfl
  · obtain ⟨s₁, hselect, heq⟩ := Option.map_eq_some_iff.mp h
    obtain ⟨rfl, -⟩ := Prod.mk.inj heq
    obtain ⟨previous, ⟨lock, -, -, rfl⟩ | ⟨-, rfl⟩ | ⟨-, -, rfl⟩⟩ := selectMarker_cases hselect
    · exact .frame rfl rfl rfl le_rfl
    · exact .frame rfl rfl rfl le_rfl
    · exact .frame rfl rfl rfl le_rfl
  · rcases enqueueOrderedSpec_cases h with ⟨error, rfl, -⟩ |
      ⟨spec, s₁, id, inserted, -, -, hinsert, -, rfl⟩
    · exact rollback_jobsChange s t
    · exact insertJob_jobsChange hinsert rfl rfl rfl rfl
  · obtain ⟨-, written, ⟨-, rfl, -⟩ | ⟨event, rest, -, -, rfl⟩⟩ := upsertMarker_cases h
    · exact .frame rfl rfl rfl le_rfl
    · exact .frame rfl rfl rfl le_rfl

/-- What a transaction can do to the jobs, unless time passes. -/
theorem transact_jobsChange {response : Response} (h : transact env s op = some (s', response)) :
    (∃ elapsed : ℕ, op = .tick elapsed ∧ s' = { s with now := s.now + elapsed }) ∨
      (∀ elapsed, op ≠ .tick elapsed) ∧ JobsChange s s' := by
  cases op with
  | tick elapsed =>
    obtain ⟨rfl, -⟩ := Prod.mk.inj (Option.some.inj h)
    exact .inl ⟨elapsed, rfl, rfl⟩
  | cancelEvents kind logicalKey =>
    exact .inr ⟨fun _ => nofun, (cancelEvents_eventsOnly h).1.jobsChange⟩
  | pruneMarker key => exact .inr ⟨fun _ => nofun, (pruneMarker_eventsOnly h).1.jobsChange⟩
  | enqueue t spec =>
    refine .inr ⟨fun _ => nofun, ?_⟩
    obtain ⟨-, h⟩ := whenIdle_eq_some h
    rcases enqueue_cases h with ⟨error, rfl, -⟩ | ⟨id, inserted, -, hinsert, -⟩
    · exact .frame rfl rfl rfl le_rfl
    · exact insertJob_jobsChange hinsert rfl rfl rfl rfl
  | enqueueOrdered t spec orderingKey =>
    refine .inr ⟨fun _ => nofun, ?_⟩
    obtain ⟨-, h⟩ := whenIdle_eq_some h
    obtain ⟨s₁, hinsert, heq⟩ := Option.map_eq_some_iff.mp h
    obtain ⟨rfl, -⟩ := Prod.mk.inj heq
    exact insertMarker_jobsChange hinsert
  | recordOutbox t spec =>
    exact .inr ⟨fun _ => nofun, (recordOutbox_eventsOnly (whenIdle_eq_some h).2).1.jobsChange⟩
  | recordOutboxOnce t spec =>
    exact .inr ⟨fun _ => nofun, (recordOutboxOnce_eventsOnly (whenIdle_eq_some h).2).1.jobsChange⟩
  | dispatchOutbox t limit skipped =>
    exact .inr ⟨fun _ => nofun, (dispatchOutbox_eventsOnly (whenIdle_eq_some h).2).1.jobsChange⟩
  | next t => exact .inr ⟨fun _ => nofun, next_jobsChange h⟩
  | commit t =>
    refine .inr ⟨fun _ => nofun, ?_⟩
    rw [transact] at h
    split_ifs at h
    obtain ⟨rfl, -⟩ := Prod.mk.inj (Option.some.inj h)
    exact .committed t rfl rfl rfl rfl
  | rollback t =>
    obtain ⟨rfl, -⟩ := Prod.mk.inj (Option.some.inj h)
    exact .inr ⟨fun _ => nofun, rollback_jobsChange s t⟩
  | _ => cases h

/-- A step is a statement on rows of jobs or a step of a transaction. -/
theorem step_cases {response : Response} (h : Step env s (op, response) s') :
    (∃ statement, Queue.statement env s op = some statement ∧ response = statement.response ∧
      s' = { s with jobs := s.jobs.filterMap statement.effect }) ∨
    Queue.statement env s op = none ∧ transact env s op = some (s', response) := by
  simp only [Step, step] at h
  cases hstatement : Queue.statement env s op with
  | some statement =>
    rw [hstatement] at h
    obtain ⟨rfl, rfl⟩ := Prod.mk.inj (Option.some.inj h)
    exact .inl ⟨statement, rfl, rfl, rfl⟩
  | none =>
    rw [hstatement] at h
    exact .inr ⟨rfl, h⟩

end Rustodon.Queue
