import Rustodon.Queue.Events
import Rustodon.Queue.Fencing

/-! @src jobs.rs | name:From the outbox to the queue | scheme:transactional outbox | family:queue

    A dispatch marks an event in the transaction that inserts its job. Nothing else marks events, so
    that what has been recorded is delivered or still to be dispatched; and what has been recorded
    can be read back, so that no row is in the way of the others. -/

namespace Rustodon.Queue
open Schemes.Checked Schemes.Json Schemes.Runs

variable {env : Env} {s s' : State} {op : Op} {response : Response} {labels : List Label}
  {t : TxnId} {spec : JobSpec}

/-! ### One live job for each key -/

/-- A job, committed or not. -/
def Present (s : State) (job : Job) : Prop := job ∈ s.jobs ∨ job ∈ s.pendingJobs.map Prod.snd

theorem Present.pending {job : Job} (h : (t, job) ∈ s.pendingJobs) : Present s job :=
  .inr (List.mem_map_of_mem (f := Prod.snd) h)

theorem conflicts_iff {job : Job} : conflicts spec job = true ↔
    spec.logicalKey ≠ none ∧ job.kind = spec.kind ∧ job.logicalKey = spec.logicalKey ∧
      job.live = true := by
  simp only [conflicts, Bool.and_eq_true, decide_eq_true_eq, Option.isSome_iff_ne_none, and_assoc]

theorem isJobOf_iff {event : Event} {job : Job} : isJobOf event job = true ↔
    event.logicalKey ≠ none ∧ job.kind = event.kind ∧ job.logicalKey = event.logicalKey ∧
      job.live = true := by
  simp only [isJobOf, Bool.and_eq_true, decide_eq_true_eq, Option.isSome_iff_ne_none, and_assoc]

/-- A live row of a statement was live before. -/
theorem Effect.live {job job' : Job} (h : Effect env s op job (some job'))
    (hfound : ∀ lanes skipped found, candidate env s.jobs lanes s.now skipped = some found →
      job.id = found.id → job.live = true) (hlive : job'.live = true) : job.live = true := by
  generalize hresult : some job' = result at h
  cases h with
  | unchanged =>
    obtain rfl := Option.some.inj hresult
    exact hlive
  | claimed _ _ hcandidate hid => exact hfound _ _ _ hcandidate hid
  | fenced _ hfences => exact (fences_iff.mp hfences).2.2.2.1
  | cancelled => cases hresult

/-- What a statement leaves of a row has its id, kind and key, and is live only if it was. -/
theorem statement_before (hwf : WellFormed s) {statement : Statement}
    (hstatement : Queue.statement env s op = some statement) {job : Job}
    (hjob : job ∈ s.jobs.filterMap statement.effect) :
    ∃ job₀ ∈ s.jobs, job₀.id = job.id ∧ job₀.kind = job.kind ∧ job₀.logicalKey = job.logicalKey ∧
      (job.live = true → job₀.live = true) := by
  obtain ⟨job₀, hjob₀, heq⟩ := List.mem_filterMap.mp hjob
  have heffect : Effect env s op job₀ (some job) := heq ▸ statement_effect hstatement job₀
  obtain ⟨hid, hkind, hkey, -⟩ := heffect.keeps
  refine ⟨job₀, hjob₀, hid.symm, hkind.symm, hkey.symm, heffect.live ?_⟩
  intro lanes skipped found hfound hid
  obtain ⟨hmem, hclaimable⟩ := candidate_mem hfound
  obtain rfl := hwf.eq_of_id hjob₀ hmem hid
  simp only [claimable, Bool.and_eq_true, and_assoc] at hclaimable
  exact hclaimable.1

/-- A job after a step was there before, or has been inserted where no row was in the way. -/
theorem Present.before (hwf : WellFormed s) (hstep : Step env s (op, response) s') {job : Job}
    (h : Present s' job) :
    (∃ job₀, Present s job₀ ∧ job₀.id = job.id ∧ job₀.kind = job.kind ∧
      job₀.logicalKey = job.logicalKey ∧ (job.live = true → job₀.live = true)) ∨
    ∃ spec, job = Job.new s.nextJobId spec ∧ ∀ job₀, Present s job₀ → conflicts spec job₀ = false := by
  have hold : Present s job → (∃ job₀, Present s job₀ ∧ job₀.id = job.id ∧ job₀.kind = job.kind ∧
      job₀.logicalKey = job.logicalKey ∧ (job.live = true → job₀.live = true)) ∨
      ∃ spec, job = Job.new s.nextJobId spec ∧
        ∀ job₀, Present s job₀ → conflicts spec job₀ = false :=
    fun h => .inl ⟨job, h, rfl, rfl, rfl, id⟩
  rcases step_cases hstep with ⟨statement, hstatement, -, rfl⟩ | ⟨-, htransact⟩
  · rcases h with h | h
    · obtain ⟨job₀, hjob₀, hsame⟩ := statement_before hwf hstatement h
      exact .inl ⟨job₀, .inl hjob₀, hsame⟩
    · exact hold (.inr h)
  · rcases transact_jobsChange htransact with ⟨elapsed, -, rfl⟩ | ⟨-, hchange⟩
    · exact hold h
    · cases hchange with
      | frame _ hjobs hpending => exact hold (by rwa [Present, hjobs, hpending] at h)
      | inserted t spec _ hjobs hpending _ hfree =>
        rw [Present, hjobs, hpending, List.map_append, List.mem_append, ← or_assoc] at h
        rcases h with h | h
        · exact hold h
        · exact .inr ⟨spec, List.mem_singleton.mp h, hfree⟩
      | committed t _ hjobs hpending =>
        rw [Present, hjobs, hpending, List.mem_append, or_assoc] at h
        rcases h with h | h | h
        · exact hold (.inl h)
        · exact hold (.pending (mem_own.mp h))
        · obtain ⟨row, hrow, rfl⟩ := List.mem_map.mp h
          exact hold (.pending (mem_others.mp hrow).1)
      | rolledBack t _ hjobs hpending =>
        rw [Present, hjobs, hpending] at h
        rcases h with h | h
        · exact hold (.inl h)
        · obtain ⟨row, hrow, rfl⟩ := List.mem_map.mp h
          exact hold (.pending (mem_others.mp hrow).1)

/-- No two live jobs of one kind and logical key. -/
def OneLive (s : State) : Prop :=
  ∀ a b, Present s a → Present s b → a.kind = b.kind → a.logicalKey = b.logicalKey →
    a.logicalKey ≠ none → a.live = true → b.live = true → a.id = b.id

theorem OneLive.step (h : OneLive s) (hwf : WellFormed s)
    (hstep : Step env s (op, response) s') : OneLive s' := by
  intro a b ha hb hkind hkey hsome hlive hlive'
  rcases ha.before hwf hstep with ⟨a₀, ha₀, hid, hakind, hakey, halive⟩ | ⟨spec, rfl, hfree⟩ <;>
    rcases hb.before hwf hstep with ⟨b₀, hb₀, hid', hbkind, hbkey, hblive⟩ | ⟨spec', rfl, hfree'⟩
  · rw [← hid, ← hid']
    exact h a₀ b₀ ha₀ hb₀ (hakind.trans (hkind.trans hbkind.symm))
      (hakey.trans (hkey.trans hbkey.symm)) (hakey ▸ hsome) (halive hlive) (hblive hlive')
  · have hconflict : conflicts spec' a₀ = true :=
      conflicts_iff.mpr ⟨fun hnone => hsome (hkey.trans hnone), hakind.trans hkind,
        hakey.trans hkey, halive hlive⟩
    rw [hfree' a₀ ha₀] at hconflict
    cases hconflict
  · have hconflict : conflicts spec b₀ = true :=
      conflicts_iff.mpr ⟨hsome, hbkind.trans hkind.symm, hbkey.trans hkey.symm, hblive hlive'⟩
    rw [hfree b₀ hb₀] at hconflict
    cases hconflict
  · rfl

theorem oneLive_of_run {start : ℤ} (h : Run (Step env) (initial start) labels s) : OneLive s := by
  refine h.invariant (P := fun _ s => OneLive s) ?_ ?_
  · rintro a b (ha | ha) <;> exact absurd ha List.not_mem_nil
  · rintro _ _ ⟨op, response⟩ _ run hone hstep
    exact hone.step (wellFormed_of_run run) hstep

/-! ### Dispatching -/

/-- The operations on the outbox, and what the workers do with the jobs; nothing is enqueued past
    the outbox. -/
def ThroughOutbox : Op → Prop
  | .enqueue .. => False
  | .enqueueOrdered .. => False
  | _ => True

def OutboxStep (env : Env) (s : State) (label : Label) (s' : State) : Prop :=
  ThroughOutbox label.1 ∧ Step env s label s'

theorem run_of_outbox {start : State} (h : Run (OutboxStep env) start labels s) :
    Run (Step env) start labels s :=
  h.mono fun _ _ _ hstep => hstep.2

/-- The job is the one that the payload of the event describes, but for the metadata of ordered
    jobs. -/
def Delivers (env : Env) (event : Event) (job : Job) : Prop :=
  ∃ spec, outboxSpec env event.kind event.logicalKey event.payload = .ok spec ∧
    job.lane = spec.lane ∧ job.kind = spec.kind ∧ job.logicalKey = spec.logicalKey ∧
    plainArguments job.arguments = plainArguments spec.arguments ∧
    job.maxAttempts = spec.maxAttempts.toInt

/-- The rows of a dispatch whose jobs are still to be inserted. -/
def Stage.waiting : Stage → List Event
  | .ordered _ (.upsert _ _) (some (_, rest)) => rest
  | stage => stage.rows

theorem Stage.waiting_sublist (stage : Stage) : stage.waiting.Sublist stage.rows := by
  unfold Stage.waiting
  split
  · exact List.sublist_cons_self ..
  · exact .refl _

/-- What ties the dispatches to the jobs that they insert. -/
structure Delivering (env : Env) (s : State) : Prop where
  /-- An ordered enqueue is for the row of a dispatch. -/
  call : ∀ t call progress caller, s.stages t = .ordered call progress caller →
    ∃ event rest, caller = some (event, rest) ∧
      outboxSpec env event.kind event.logicalKey event.payload = .ok call.spec ∧
      activitypubDeliveryOrderingKey env call.spec = some call.orderingKey
  /-- Before the row is marked its job has been inserted. -/
  inserted : ∀ t call id runAt event rest,
    s.stages t = .ordered call (.upsert id runAt) (some (event, rest)) →
    ∃ job, (t, job) ∈ s.pendingJobs ∧ Delivers env event job
  /-- Until then no live job is in the way. -/
  free : ∀ t, ∀ event ∈ (s.stages t).waiting, ∀ job, Present s job → isJobOf event job = false
  /-- A pending job is that of a row that its transaction has locked, -/
  pending : ∀ row ∈ s.pendingJobs, ∃ event, Held s row.1 event ∧ row.2.kind = event.kind ∧
    row.2.logicalKey = event.logicalKey
  /-- and a row is marked where its job is pending. -/
  marked : ∀ row ∈ s.pendingEvents, row.2.dispatchedAt ≠ none →
    ∃ job, (row.1, job) ∈ s.pendingJobs ∧ Delivers env row.2 job

theorem delivering_initial (env : Env) (start : ℤ) : Delivering env (initial start) where
  call _ _ _ _ h := Stage.noConfusion h
  inserted _ _ _ _ _ _ h := Stage.noConfusion h
  free _ _ h := absurd h List.not_mem_nil
  pending _ h := absurd h List.not_mem_nil
  marked _ h := absurd h List.not_mem_nil

/-- A step that inserts no job and goes on in no function, but may end a transaction. -/
theorem Delivering.quiet (h : Delivering env s) (ended : Option TxnId)
    (hstages : ∀ t, s'.stages t = .idle ∨ s'.stages t = s.stages t ∧ ended ≠ some t)
    (hpresent : ∀ job, Present s' job → ∃ job₀, Present s job₀ ∧ job₀.kind = job.kind ∧
      job₀.logicalKey = job.logicalKey ∧ (job.live = true → job₀.live = true))
    (hpending : ∀ row, row ∈ s'.pendingJobs ↔ row ∈ s.pendingJobs ∧ ended ≠ some row.1)
    (hheld : ∀ t event, Held s t event → ended ≠ some t → Held s' t event)
    (hmarked : ∀ row ∈ s'.pendingEvents, row.2.dispatchedAt ≠ none →
      row ∈ s.pendingEvents ∧ ended ≠ some row.1) : Delivering env s' where
  call t call progress caller hstage := by
    rcases hstages t with hidle | ⟨heq, -⟩
    · exact Stage.noConfusion (hidle.symm.trans hstage)
    · exact h.call t call progress caller (heq.symm.trans hstage)
  inserted t call id runAt event rest hstage := by
    rcases hstages t with hidle | ⟨heq, hends⟩
    · exact Stage.noConfusion (hidle.symm.trans hstage)
    · obtain ⟨job, hjob, hdelivers⟩ := h.inserted t call id runAt event rest (heq.symm.trans hstage)
      exact ⟨job, (hpending _).mpr ⟨hjob, hends⟩, hdelivers⟩
  free t event hevent job hjob := by
    rcases hstages t with hidle | ⟨heq, -⟩
    · rw [hidle] at hevent
      exact absurd hevent List.not_mem_nil
    · rw [heq] at hevent
      obtain ⟨job₀, hjob₀, hkind, hkey, hlive⟩ := hpresent job hjob
      by_contra hin
      obtain ⟨hsome, hjobkind, hjobkey, hjoblive⟩ := isJobOf_iff.mp (Bool.of_not_eq_false hin)
      have hbefore : isJobOf event job₀ = true :=
        isJobOf_iff.mpr ⟨hsome, hkind.trans hjobkind, hkey.trans hjobkey, hlive hjoblive⟩
      rw [h.free t event hevent job₀ hjob₀] at hbefore
      cases hbefore
  pending row hrow := by
    obtain ⟨hmem, hends⟩ := (hpending row).mp hrow
    obtain ⟨event, hevent, hsame⟩ := h.pending row hmem
    exact ⟨event, hheld _ _ hevent hends, hsame⟩
  marked row hrow hdispatched := by
    obtain ⟨hmem, hends⟩ := hmarked row hrow hdispatched
    obtain ⟨job, hjob, hdelivers⟩ := h.marked row hmem hdispatched
    exact ⟨job, (hpending _).mpr ⟨hjob, hends⟩, hdelivers⟩

/-- A transaction goes on to another statement. -/
theorem Delivering.setStage (h : Delivering env s) {stage : Stage}
    (hcall : ∀ call progress caller, stage = .ordered call progress caller →
      ∃ event rest, caller = some (event, rest) ∧
        outboxSpec env event.kind event.logicalKey event.payload = .ok call.spec ∧
        activitypubDeliveryOrderingKey env call.spec = some call.orderingKey)
    (hinserted : ∀ call id runAt event rest,
      stage = .ordered call (.upsert id runAt) (some (event, rest)) →
      ∃ job, (t, job) ∈ s.pendingJobs ∧ Delivers env event job)
    (hfree : ∀ event ∈ stage.waiting, ∀ job, Present s job → isJobOf event job = false) :
    Delivering env (s.setStage t stage) where
  call t' call progress caller hstage := by
    simp only [State.setStage] at hstage
    split_ifs at hstage with ht
    · exact hcall call progress caller hstage
    · exact h.call t' call progress caller hstage
  inserted t' call id runAt event rest hstage := by
    simp only [State.setStage] at hstage
    split_ifs at hstage with ht
    · subst ht
      exact hinserted call id runAt event rest hstage
    · exact h.inserted t' call id runAt event rest hstage
  free t' event hevent job hjob := by
    simp only [State.setStage] at hevent
    split_ifs at hevent with ht
    · exact hfree event hevent job hjob
    · exact h.free t' event hevent job hjob
  pending := h.pending
  marked := h.marked

/-- A transaction marks a row whose job it has inserted. -/
theorem Delivering.mark (h : Delivering env s) {event : Event} {job : Job} (now : ℤ)
    (hjob : (t, job) ∈ s.pendingJobs) (hdelivers : Delivers env event job) :
    Delivering env { s with
      pendingEvents := s.pendingEvents ++ [(t, { event with dispatchedAt := some now })] } where
  call := h.call
  inserted := h.inserted
  free := h.free
  pending := h.pending
  marked row hrow hdispatched := by
    rcases List.mem_append.mp hrow with hrow | hrow
    · exact h.marked row hrow hdispatched
    · obtain rfl := List.mem_singleton.mp hrow
      exact ⟨job, hjob, hdelivers⟩

/-- Two locked rows of one key are one. -/
theorem EventTable.held_eq (h : EventTable env s) {t' : TxnId} {a b : Event} (ha : Held s t a)
    (hb : Held s t' b) (hsame : SameKey a b) : a = b ∧ t = t' := by
  have hid := h.unique a (mem_versions.mpr (.inl ha.1)) b (mem_versions.mpr (.inl hb.1)) hsame
  obtain rfl := h.eq_of_id ha.1 hb.1 hid
  exact ⟨rfl, Option.some.inj (ha.2.symm.trans hb.2)⟩

/-- A transaction inserts the job of its first row and goes on. -/
theorem Delivering.insert (h : Delivering env s) (htable : EventTable env s) {event : Event}
    {rest : List Event} (hrows : (s.stages t).rows = event :: rest) (stage : Stage)
    (hkind : spec.kind = event.kind) (hkey : spec.logicalKey = event.logicalKey)
    (hold : ∀ row ∈ rest, row ∈ (s.stages t).waiting) (hwaiting : stage.waiting = rest)
    (hcall : ∀ call progress caller, stage = .ordered call progress caller →
      ∃ event rest, caller = some (event, rest) ∧
        outboxSpec env event.kind event.logicalKey event.payload = .ok call.spec ∧
        activitypubDeliveryOrderingKey env call.spec = some call.orderingKey)
    (hinserted : ∀ call id runAt event rest,
      stage = .ordered call (.upsert id runAt) (some (event, rest)) →
      Delivers env event (Job.new s.nextJobId spec)) :
    Delivering env ({ s with
      nextJobId := s.nextJobId + 1
      pendingJobs := s.pendingJobs ++ [(t, Job.new s.nextJobId spec)] }.setStage t stage) := by
  have hhead : event ∈ (s.stages t).rows := hrows ▸ List.mem_cons_self
  obtain ⟨hevent, hlock, -⟩ := htable.row t event hhead
  -- The new job is in the way of its own row alone.
  have hnew : ∀ t' row, row ∈ (s.stages t').rows → (t' = t → row ∈ rest) →
      isJobOf row (Job.new s.nextJobId spec) = false := by
    intro t' row hrow hrest
    by_contra hin
    obtain ⟨hsome, hjobkind, hjobkey, -⟩ := isJobOf_iff.mp (Bool.of_not_eq_false hin)
    obtain ⟨hcommitted, hlocked, -⟩ := htable.row t' row hrow
    have hsame : SameKey row event :=
      ⟨hjobkind.symm.trans hkind, hjobkey.symm.trans hkey, hsome⟩
    obtain ⟨rfl, rfl⟩ := htable.held_eq ⟨hcommitted, hlocked⟩ ⟨hevent, hlock⟩ hsame
    have hnodup := htable.rowsNodup t'
    rw [hrows, List.map_cons, List.nodup_cons] at hnodup
    exact hnodup.1 (List.mem_map_of_mem (hrest rfl))
  have hpresent : ∀ job, Present { s with
      nextJobId := s.nextJobId + 1
      pendingJobs := s.pendingJobs ++ [(t, Job.new s.nextJobId spec)] } job →
      Present s job ∨ job = Job.new s.nextJobId spec := by
    intro job hjob
    rw [Present, List.map_append, List.mem_append, ← or_assoc] at hjob
    exact hjob.imp_right List.mem_singleton.mp
  have hmono : ∀ t' job, (t', job) ∈ s.pendingJobs →
      (t', job) ∈ s.pendingJobs ++ [(t, Job.new s.nextJobId spec)] :=
    fun t' job hjob => List.mem_append_left _ hjob
  constructor
  · intro t' call progress caller hstage
    simp only [State.setStage] at hstage
    split_ifs at hstage with ht
    · exact hcall call progress caller hstage
    · exact h.call t' call progress caller hstage
  · intro t' call id runAt event' rest' hstage
    simp only [State.setStage] at hstage
    split_ifs at hstage with ht
    · subst ht
      exact ⟨_, List.mem_append_right _ (List.mem_singleton_self _),
        hinserted call id runAt event' rest' hstage⟩
    · obtain ⟨job, hjob, hdelivers⟩ := h.inserted t' call id runAt event' rest' hstage
      exact ⟨job, hmono t' job hjob, hdelivers⟩
  · intro t' row hrow job hjob
    simp only [State.setStage] at hrow
    split_ifs at hrow with ht
    · subst ht
      rw [hwaiting] at hrow
      rcases hpresent job hjob with hjob | rfl
      · exact h.free t' row (hold row hrow) job hjob
      · exact hnew t' row (hrows ▸ List.mem_cons_of_mem _ hrow) fun _ => hrow
    · rcases hpresent job hjob with hjob | rfl
      · exact h.free t' row hrow job hjob
      · exact hnew t' row ((s.stages t').waiting_sublist.subset hrow) fun heq => absurd heq ht
  · intro row hrow
    rcases List.mem_append.mp hrow with hrow | hrow
    · exact h.pending row hrow
    · obtain rfl := List.mem_singleton.mp hrow
      exact ⟨event, ⟨hevent, hlock⟩, hkind, hkey⟩
  · intro row hrow hdispatched
    obtain ⟨job, hjob, hdelivers⟩ := h.marked row hrow hdispatched
    exact ⟨job, hmono row.1 job hjob, hdelivers⟩

theorem Delivering.holdMarker (h : Delivering env s) (t : TxnId) (key : MarkerKey)
    (written : Option Marker) : Delivering env (s.holdMarker t key written) :=
  ⟨h.call, h.inserted, h.free, h.pending, h.marked⟩

/-- A step on the events that marks none. -/
theorem Delivering.eventsOnly (h : Delivering env s) (htable : EventTable env s)
    (hevents : EventsOnly s s') (hstages : s'.stages = s.stages)
    (hchange : EventsChange env s none s')
    (hmarked : ∀ row ∈ s'.pendingEvents, row.2.dispatchedAt ≠ none → row ∈ s.pendingEvents) :
    Delivering env s' := by
  refine h.quiet none (fun t => .inr ⟨congrFun hstages t, nofun⟩) (fun job hjob => ?_) (fun row => ?_)
    (fun t event hheld hends => hheld.change htable hchange hends)
    (fun row hrow hdispatched => ⟨hmarked row hrow hdispatched, nofun⟩)
  · rw [Present, hevents.jobs, hevents.pendingJobs] at hjob
    exact ⟨job, hjob, rfl, rfl, id⟩
  · rw [hevents.pendingJobs]
    exact ⟨fun hrow => ⟨hrow, nofun⟩, And.left⟩

/-- Recording marks no event. -/
theorem Records.unmarked (h : Records env s t spec s') {row : TxnId × Event}
    (hrow : row ∈ s'.pendingEvents) (hdispatched : row.2.dispatchedAt ≠ none) :
    row ∈ s.pendingEvents := by
  cases h with
  | again =>
    obtain ⟨old, hold, rfl⟩ := List.mem_map.mp hrow
    split_ifs at hdispatched ⊢ with heq
    · exact absurd rfl hdispatched
    · exact hold
  | onto | fresh =>
    rcases List.mem_append.mp hrow with hrow | hrow
    · exact hrow
    · obtain rfl := List.mem_singleton.mp hrow
      exact absurd rfl hdispatched

theorem Delivering.release (h : Delivering env s) (htable : EventTable env s) (t : TxnId) :
    Delivering env (s.release t) := by
  refine h.quiet (some t) (fun t' => ?_) (fun job hjob => ?_) (fun row => ?_)
    (fun t' event hheld hends => hheld.change htable (.rolledBack t) hends) (fun row hrow _ => ?_)
  · simp only [State.release]
    split_ifs with ht
    · exact .inl rfl
    · exact .inr ⟨rfl, fun heq => ht (Option.some.inj heq).symm⟩
  · rcases hjob with hjob | hjob
    · exact ⟨job, .inl hjob, rfl, rfl, id⟩
    · obtain ⟨row, hrow, rfl⟩ := List.mem_map.mp hjob
      exact ⟨row.2, .pending (mem_others.mp hrow).1, rfl, rfl, id⟩
  · rw [Ne, Option.some_inj, eq_comm]
    exact mem_others
  · obtain ⟨hmem, hne⟩ := mem_others.mp hrow
    exact ⟨hmem, fun heq => hne (Option.some.inj heq).symm⟩

theorem Delivering.commit (h : Delivering env s) (htable : EventTable env s)
    (hrows : (s.stages t).rows = []) : Delivering env (s.commit t) := by
  have hrelease := h.release htable t
  refine h.quiet (some t) (fun t' => ?_) (fun job hjob => ?_) (fun row => ?_)
    (fun t' event hheld hends => hheld.change htable (.committed t hrows) hends)
    (fun row hrow _ => ?_)
  · simp only [State.commit, State.release]
    split_ifs with ht
    · exact .inl rfl
    · exact .inr ⟨rfl, fun heq => ht (Option.some.inj heq).symm⟩
  · rcases hjob with hjob | hjob
    · rcases List.mem_append.mp hjob with hjob | hjob
      · exact ⟨job, .inl hjob, rfl, rfl, id⟩
      · exact ⟨job, .pending (mem_own.mp hjob), rfl, rfl, id⟩
    · obtain ⟨row, hrow, rfl⟩ := List.mem_map.mp hjob
      exact ⟨row.2, .pending (mem_others.mp hrow).1, rfl, rfl, id⟩
  · rw [Ne, Option.some_inj, eq_comm]
    exact mem_others
  · obtain ⟨hmem, hne⟩ := mem_others.mp hrow
    exact ⟨hmem, fun heq => hne (Option.some.inj heq).symm⟩

/-- A dispatch takes rows whose jobs are not there. -/
theorem Delivering.dispatchOutbox (h : Delivering env s) (htable : EventTable env s) {limit : ℤ}
    {skipped : List ℕ} (hdispatch : s.dispatchOutbox env t limit skipped = some (s', response)) :
    Delivering env s' := by
  rw [State.dispatchOutbox] at hdispatch
  split_ifs at hdispatch with hlimit hpending
  · obtain ⟨rfl, -⟩ := Prod.mk.inj (Option.some.inj hdispatch)
    exact h
  · obtain ⟨rfl, -⟩ := Prod.mk.inj (Option.some.inj hdispatch)
    have hchange : EventsChange env s none
        { s.setStage t (.dispatching (dispatchRows env s limit.toNat skipped)) with
          eventLocks := fun id =>
            if (dispatchRows env s limit.toNat skipped).any fun event => event.id == id then some t
            else s.eventLocks id } := by
      refine .dispatching t limit skipped fun row hrow heq => hpending ?_
      exact List.any_eq_true.mpr ⟨row, hrow, beq_iff_eq.mpr heq⟩
    have hstaged : Delivering env
        (s.setStage t (.dispatching (dispatchRows env s limit.toNat skipped))) := by
      refine h.setStage (by rintro _ _ _ ⟨⟩) (by rintro _ _ _ _ _ ⟨⟩)
        fun event hevent job hjob => ?_
      obtain ⟨hcommitted, hdispatchable, hunlocked⟩ := mem_dispatchRows hevent
      rcases hjob with hjob | hjob
      · exact (dispatchable_iff.mp hdispatchable).2.2.2 job hjob
      · obtain ⟨row, hrow, rfl⟩ := List.mem_map.mp hjob
        obtain ⟨event', hheld, hkind, hkey⟩ := h.pending row hrow
        by_contra hin
        obtain ⟨hsome, hjobkind, hjobkey, -⟩ := isJobOf_iff.mp (Bool.of_not_eq_false hin)
        have hsame : SameKey event event' :=
          ⟨hjobkind.symm.trans hkind, hjobkey.symm.trans hkey, hsome⟩
        have hid := htable.unique event (mem_versions.mpr (.inl hcommitted)) event'
          (mem_versions.mpr (.inl hheld.1)) hsame
        rw [hid, hheld.2] at hunlocked
        cases hunlocked
    refine ⟨hstaged.call, hstaged.inserted, hstaged.free, fun row hrow => ?_, hstaged.marked⟩
    obtain ⟨event, hheld, hsame⟩ := h.pending row hrow
    exact ⟨event, hheld.change htable hchange (by rintro ⟨⟩), hsame⟩

/-- The insertion of a row's job finds no row in the way. -/
theorem Delivering.insertJob (h : Delivering env s) {event : Event} {id : ℕ} {inserted : Bool}
    {s₁ : State} (hinsert : s.insertJob t spec = some (s₁, id, inserted))
    (hevent : event ∈ (s.stages t).waiting) (hkind : spec.kind = event.kind)
    (hkey : spec.logicalKey = event.logicalKey) : inserted = true ∧ s₁ = { s with
      nextJobId := s.nextJobId + 1
      pendingJobs := s.pendingJobs ++ [(t, Job.new s.nextJobId spec)] } := by
  rcases insertJob_cases hinsert with ⟨-, -, job, hjob, -, hconflict⟩ | ⟨rfl, -, rfl, -⟩
  · have hpresent : Present s job := by
      rcases hjob with hjob | hjob
      · exact .inl hjob
      · exact .pending hjob
    obtain ⟨hsome, hjobkind, hjobkey, hlive⟩ := conflicts_iff.mp hconflict
    have hin : isJobOf event job = true := isJobOf_iff.mpr
      ⟨hkey ▸ hsome, hjobkind.trans hkind, hjobkey.trans hkey, hlive⟩
    rw [h.free t event hevent job hpresent] at hin
    cases hin
  · exact ⟨rfl, rfl⟩

theorem Delivering.dispatchEvent (h : Delivering env s) (htable : EventTable env s) {event : Event}
    {rest : List Event} (hstage : s.stages t = .dispatching (event :: rest))
    (hdispatch : s.dispatchEvent env t event rest = some (s', response)) : Delivering env s' := by
  have hrows : (s.stages t).rows = event :: rest := by rw [hstage, Stage.rows]
  have hwaiting : (s.stages t).waiting = event :: rest := by rw [hstage]; rfl
  have hfree : ∀ row ∈ event :: rest, ∀ job, Present s job → isJobOf row job = false :=
    fun row hrow => h.free t row (hwaiting ▸ hrow)
  rcases dispatchEvent_cases hdispatch with ⟨error, rfl, -⟩ |
    ⟨spec, orderingKey, hspec, hkey, -, hinsert⟩ | ⟨spec, s₁, id, inserted, hspec, -, -, hinsert, hs'⟩
  · exact h.release htable t
  · have hset : Delivering env (s.setStage t (.ordered
        ⟨spec, orderingKey, activitypubDeliveryOrderingKind⟩ .select (some (event, rest)))) := by
      refine h.setStage ?_ (by rintro _ _ _ _ _ ⟨⟩) hfree
      rintro _ _ _ ⟨⟩
      exact ⟨event, rest, rfl, hspec, hkey⟩
    rcases insertMarker_cases hinsert with rfl | ⟨-, -, written, rfl⟩
    · exact hset
    · exact hset.holdMarker ..
  · obtain ⟨hkind, hlogical, -⟩ := outboxSpec_ok hspec
    obtain ⟨rfl, rfl⟩ := h.insertJob hinsert (hwaiting ▸ List.mem_cons_self) hkind hlogical
    rcases hs' with ⟨-, rfl⟩ | ⟨hfalse, -⟩
    · have hinserted := h.insert htable hrows (.dispatching rest) hkind hlogical
        (fun row hrow => hwaiting ▸ List.mem_cons_of_mem _ hrow) rfl (by rintro _ _ _ ⟨⟩)
        (by rintro _ _ _ _ _ ⟨⟩)
      exact hinserted.mark s.now (List.mem_append_right _ (List.mem_singleton_self _))
        ⟨spec, hspec, rfl, rfl, rfl, rfl, rfl⟩
    · cases hfalse

/-- The job of an ordered enqueue differs from the one of the event in the metadata alone. -/
theorem delivers_ordered {event : Event} {ordered : JobSpec} {orderingKey : List UInt8} {runAt : ℤ}
    (hspec : outboxSpec env event.kind event.logicalKey event.payload = .ok spec)
    (hordered : Ordered env spec orderingKey runAt ordered) (id : ℕ) :
    Delivers env event (Job.new id ordered) :=
  ⟨spec, hspec, hordered.lane, hordered.kind, hordered.logicalKey, hordered.plain,
    congrArg Int32.toInt hordered.maxAttempts⟩

theorem Delivering.next (h : Delivering env s) (htable : EventTable env s)
    (hnext : s.next env t = some (s', response)) : Delivering env s' := by
  rw [State.next] at hnext
  cases hstage : s.stages t with
  | idle =>
    rw [hstage] at hnext
    cases hnext
  | dispatching rows =>
    cases rows with
    | nil =>
      rw [hstage] at hnext
      cases hnext
    | cons event rest =>
      rw [hstage] at hnext
      exact h.dispatchEvent htable hstage hnext
  | ordered call progress caller =>
    rw [hstage] at hnext
    obtain ⟨event, rest, rfl, hspec, hkey⟩ := h.call t call progress caller hstage
    have hrows : (s.stages t).rows = event :: rest := by rw [hstage, Stage.rows]
    have hfree := h.free t
    rw [hstage] at hfree
    cases progress with
    | select =>
      obtain ⟨s₁, hselect, heq⟩ := Option.map_eq_some_iff.mp hnext
      obtain ⟨rfl, -⟩ := Prod.mk.inj heq
      obtain ⟨previous, hs'⟩ := selectMarker_cases hselect
      have hset : Delivering env
          (s.setStage t (.ordered call (.enqueue previous) (some (event, rest)))) := by
        refine h.setStage ?_ (by rintro _ _ _ _ _ ⟨⟩) hfree
        rintro _ _ _ ⟨⟩
        exact ⟨event, rest, rfl, hspec, hkey⟩
      rcases hs' with ⟨lock, -, -, rfl⟩ | ⟨-, rfl⟩ | ⟨-, -, rfl⟩
      · exact hset
      · exact hset.holdMarker ..
      · exact hset
    | enqueue previous =>
      rcases enqueueOrderedSpec_cases hnext with ⟨error, rfl, -⟩ |
        ⟨ordered, s₁, id, inserted, hmetadata, -, hinsert, -, rfl⟩
      · exact h.release htable t
      · have hordered : Ordered env call.spec call.orderingKey (orderedRunAt call.spec previous)
            ordered := withOrderingMetadata_ok hmetadata
        obtain ⟨hkind, hlogical, -⟩ := outboxSpec_ok hspec
        have hwaiting : (s.stages t).waiting = event :: rest := by rw [hstage]; rfl
        have hkind' := hordered.kind.trans hkind
        have hlogical' := hordered.logicalKey.trans hlogical
        obtain ⟨rfl, rfl⟩ := h.insertJob hinsert (hwaiting ▸ List.mem_cons_self) hkind' hlogical'
        refine h.insert htable hrows _ hkind' hlogical'
          (fun row hrow => hwaiting ▸ List.mem_cons_of_mem _ hrow) rfl ?_ ?_
        · rintro _ _ _ ⟨⟩
          exact ⟨event, rest, rfl, hspec, hkey⟩
        · rintro _ _ _ _ _ ⟨⟩
          exact delivers_ordered hspec hordered _
    | upsert id runAt =>
      obtain ⟨job, hjob, hdelivers⟩ := h.inserted t call id runAt event rest hstage
      obtain ⟨-, written, ⟨hnone, -⟩ | ⟨_, _, heq, -, rfl⟩⟩ := upsertMarker_cases hnext
      · cases hnone
      · obtain ⟨rfl, rfl⟩ := Prod.mk.inj (Option.some.inj heq)
        have hset : Delivering env ((s.holdMarker t call.markerKey written).setStage t
            (.dispatching rest)) :=
          (h.holdMarker t call.markerKey written).setStage (by rintro _ _ _ ⟨⟩)
            (by rintro _ _ _ _ _ ⟨⟩) hfree
        exact hset.mark s.now hjob hdelivers

theorem Delivering.step (h : Delivering env s) (htable : EventTable env s) (hwf : WellFormed s)
    (hstep : OutboxStep env s (op, response) s') : Delivering env s' := by
  obtain ⟨hthrough, hstep⟩ := hstep
  rcases step_cases hstep with ⟨statement, hstatement, -, rfl⟩ | ⟨-, htransact⟩
  · refine h.quiet none (fun t => .inr ⟨rfl, nofun⟩) (fun job hjob => ?_)
      (fun row => ⟨fun hrow => ⟨hrow, nofun⟩, And.left⟩) (fun t event hheld _ => hheld)
      (fun row hrow _ => ⟨hrow, nofun⟩)
    rcases hjob with hjob | hjob
    · obtain ⟨job₀, hjob₀, -, hsame⟩ := statement_before hwf hstatement hjob
      exact ⟨job₀, .inl hjob₀, hsame⟩
    · exact ⟨job, .inr hjob, rfl, rfl, id⟩
  · cases op with
    | tick elapsed =>
      obtain ⟨rfl, -⟩ := Prod.mk.inj (Option.some.inj htransact)
      exact ⟨h.call, h.inserted, h.free, h.pending, h.marked⟩
    | cancelEvents kind logicalKey =>
      have hchange : EventsChange env s none s' := cancelEvents_change htransact
      simp only [transact, State.cancelEvents] at htransact
      split_ifs at htransact
      obtain ⟨rfl, -⟩ := Prod.mk.inj (Option.some.inj htransact)
      exact h.eventsOnly htable ⟨rfl, rfl, rfl, rfl, rfl⟩ rfl hchange fun row hrow _ => hrow
    | pruneMarker key =>
      rw [transact, State.pruneMarker] at htransact
      split at htransact
      · split_ifs at htransact
        obtain ⟨rfl, -⟩ := Prod.mk.inj (Option.some.inj htransact)
        exact ⟨h.call, h.inserted, h.free, h.pending, h.marked⟩
      · cases htransact
    | enqueue t spec => exact hthrough.elim
    | enqueueOrdered t spec orderingKey => exact hthrough.elim
    | recordOutbox t spec =>
      obtain ⟨hidle, hrecord⟩ := whenIdle_eq_some htransact
      obtain ⟨hevents, hstages⟩ := recordOutbox_eventsOnly hrecord
      rcases recordOutbox_cases hrecord with ⟨rfl, -⟩ | ⟨hvalid, -, hrecords⟩
      · exact h
      · exact h.eventsOnly htable hevents hstages (.recorded t hidle hvalid hrecords)
          fun row hrow hdispatched => hrecords.unmarked hrow hdispatched
    | recordOutboxOnce t spec =>
      obtain ⟨hidle, hrecord⟩ := whenIdle_eq_some htransact
      obtain ⟨hevents, hstages⟩ := recordOutboxOnce_eventsOnly hrecord
      rcases recordOutboxOnce_cases hrecord with ⟨rfl, -⟩ | ⟨hvalid, -, hrecords⟩
      · exact h
      · exact h.eventsOnly htable hevents hstages (.recorded t hidle hvalid hrecords)
          fun row hrow hdispatched => hrecords.unmarked hrow hdispatched
    | dispatchOutbox t limit skipped =>
      exact h.dispatchOutbox htable (whenIdle_eq_some htransact).2
    | next t => exact h.next htable htransact
    | commit t =>
      rw [transact] at htransact
      split_ifs at htransact with hreturned
      obtain ⟨rfl, -⟩ := Prod.mk.inj (Option.some.inj htransact)
      exact h.commit htable (rows_of_returned hreturned)
    | rollback t =>
      obtain ⟨rfl, -⟩ := Prod.mk.inj (Option.some.inj htransact)
      exact h.release htable t
    | _ => cases htransact

theorem delivering_of_run {start : ℤ} (h : Run (OutboxStep env) (initial start) labels s) :
    Delivering env s := by
  refine h.invariant (P := fun _ s => Delivering env s) (delivering_initial env start) ?_
  rintro _ _ ⟨op, response⟩ _ run hdelivering hstep
  have run := run_of_outbox run
  exact hdelivering.step (eventTable_of_run run) (wellFormed_of_run run) hstep

/-! ### Reading events back -/

/-- An event that has been recorded is read back as the specification it was recorded for. -/
theorem Recorded.decodes (htime : ∀ t, env.parseRfc3339 (env.toRfc3339 t) = some t) {event : Event}
    (h : Recorded env event) : ∃ spec, spec.validate = .ok () ∧
      event.payload = outboxPayload env spec ∧
      outboxSpec env event.kind event.logicalKey event.payload = .ok spec := by
  obtain ⟨spec, hvalid, hkind, hkey, hpayload⟩ := h
  refine ⟨spec, hvalid, hpayload, ?_⟩
  rw [hkind, hkey, hpayload]
  exact outboxSpec_outboxPayload hvalid (htime _)

/-- No statement of a dispatch fails. -/
theorem Delivering.not_failed (h : Delivering env s) (htable : EventTable env s)
    (htime : ∀ t, env.parseRfc3339 (env.toRfc3339 t) = some t) {error : JobError} :
    s.next env t ≠ some (s', .failed error) := by
  intro hnext
  rw [State.next] at hnext
  cases hstage : s.stages t with
  | idle =>
    rw [hstage] at hnext
    cases hnext
  | dispatching rows =>
    cases rows with
    | nil =>
      rw [hstage] at hnext
      cases hnext
    | cons event rest =>
      rw [hstage] at hnext
      have hhead : event ∈ (s.stages t).rows := by
        rw [hstage]
        exact List.mem_cons_self
      have hversion := mem_versions.mpr (.inl (htable.row t event hhead).1)
      obtain ⟨spec, -, -, hspec⟩ := (htable.recorded event hversion).decodes htime
      rcases dispatchEvent_cases hnext with ⟨_, -, -, herror | ⟨spec', hspec', herror⟩⟩ |
        ⟨_, _, -, -, hdone, -⟩ | ⟨_, _, _, _, -, -, hdone, -⟩
      · rw [hspec] at herror
        cases herror
      · rw [(outboxSpec_ok hspec').2.2] at herror
        cases herror
      · cases hdone
      · cases hdone
  | ordered call progress caller =>
    rw [hstage] at hnext
    obtain ⟨event, rest, rfl, hspec, hkey⟩ := h.call t call progress caller hstage
    cases progress with
    | select =>
      obtain ⟨s₁, -, heq⟩ := Option.map_eq_some_iff.mp hnext
      cases (Prod.mk.inj heq).2
    | enqueue previous =>
      rcases enqueueOrderedSpec_cases hnext with ⟨_, -, -, herror⟩ | ⟨_, _, _, _, -, -, -, hdone, -⟩
      · obtain ⟨ordered, hmetadata⟩ := withOrderingMetadata_delivery hkey
          (previous.bind Prod.snd) (orderedRunAt call.spec previous)
        rw [hmetadata] at herror
        rcases herror with herror | ⟨spec, hspec', herror⟩
        · cases herror
        · obtain rfl := Except.ok.inj hspec'
          have hordered : Ordered env call.spec call.orderingKey (orderedRunAt call.spec previous)
              ordered := withOrderingMetadata_ok hmetadata
          rw [validate_congr hordered.kind hordered.logicalKey hordered.maxAttempts,
            (outboxSpec_ok hspec).2.2] at herror
          cases herror
      · cases hdone
    | upsert id runAt =>
      obtain ⟨-, written, ⟨-, -, hdone⟩ | ⟨_, _, -, hdone, -⟩⟩ := upsertMarker_cases hnext
      · cases hdone
      · cases hdone

end Rustodon.Queue
