import Rustodon.Polls.UpdateEntries

/-! @src mastodon/write_repository.rs, jobs.rs | name:No lost poll update | scheme:coalescing |
    family:polls

    Every committed vote is in a tally that a completed run has read, or an event is still to be
    dispatched or a job to run that will read it; only a job that dies takes votes with it. Of the
    entries for a poll that no worker has begun with there is one at most. -/

namespace Rustodon.Polls
open Queue Schemes.Runs

variable {env : Env} {pollId : ℤ} {σ σ' : System} {s s' : State} {op : Op} {response : Response}
  {ops : List UpdateOp} {v : Voting}

/-! ### What attempts have read -/

/-- Attempts have read a tally of committed votes, and no attempt of a later claim has. -/
structure ReadsBehind (σ : System) : Prop where
  behind : ∀ id generation, σ.reads id generation ≠ none →
    Settled σ.queue id ∧ ∀ job ∈ σ.queue.jobs, job.id = id → generation ≤ job.generation
  le_tally : ∀ id generation n, σ.reads id generation = some n → n ≤ σ.tally
  distributed : σ.distributed ≤ σ.tally
  lost : σ.lost ≤ σ.tally

/-- A run that ends adds to what is distributed, or to what is lost. -/
theorem account_cases (σ : System) (pollId : ℤ) (op : Op) (response : Response) :
    (σ.distributed ≤ (σ.account pollId op response).distributed ∧
      (σ.account pollId op response).lost = σ.lost) ∨
    (σ.account pollId op response).distributed = σ.distributed ∧
      (σ.account pollId op response).lost = σ.tally := by
  unfold System.account
  split
  · split_ifs
    · exact .inl ⟨Nat.le_max_left _ _, rfl⟩
    · exact .inl ⟨Nat.le_refl _, rfl⟩
  · split_ifs
    · exact .inr ⟨rfl, rfl⟩
    · exact .inl ⟨Nat.le_refl _, rfl⟩
  · split_ifs
    · exact .inr ⟨rfl, rfl⟩
    · exact .inl ⟨Nat.le_refl _, rfl⟩
  · exact .inl ⟨Nat.le_refl _, rfl⟩

theorem account_distributed_le (h : ReadsBehind σ) (pollId : ℤ) (op : Op) (response : Response) :
    (σ.account pollId op response).distributed ≤ σ.tally := by
  unfold System.account
  split
  · next id _ generation =>
    split_ifs
    · refine Nat.max_le.mpr ⟨h.distributed, ?_⟩
      cases hread : σ.reads id generation with
      | none => exact Nat.zero_le _
      | some n => exact h.le_tally id generation n hread
    · exact h.distributed
  · split_ifs <;> exact h.distributed
  · split_ifs <;> exact h.distributed
  · exact h.distributed

/-- Steps of the queue alone keep the attempts in order. -/
theorem ReadsBehind.behind_step (h : ReadsBehind σ) (hstep : Step env σ.queue (op, response) s')
    (id generation : ℕ) (hread : σ.reads id generation ≠ none) :
    Settled s' id ∧ ∀ job ∈ s'.jobs, job.id = id → generation ≤ job.generation := by
  obtain ⟨hsettled, hrows⟩ := h.behind id generation hread
  refine hsettled.step hrows (fun job _ _ hle job' heffect => ?_) hstep
  exact Nat.le_trans hle heffect.keeps.2.2.2

theorem ReadsBehind.change (h : ReadsBehind σ) (hwf : WellFormed σ.queue) {op : UpdateOp}
    (hchange : Change env pollId σ op σ') : ReadsBehind σ' := by
  cases hchange with
  | @queue op response s' hpermits hstep =>
    obtain ⟨-, -, htally, hreads⟩ := account_frame σ pollId op response
    refine ⟨fun id generation hread => ?_, fun id generation n hread => ?_, ?_, ?_⟩
    · exact h.behind_step hstep id generation (hreads ▸ hread)
    · exact htally.symm ▸ h.le_tally id generation n (hreads ▸ hread)
    · exact htally.symm ▸ account_distributed_le h pollId op response
    · rcases account_cases σ pollId op response with ⟨-, hlost⟩ | ⟨-, hlost⟩
      · exact htally.symm ▸ hlost ▸ h.lost
      · exact htally.symm ▸ hlost.le
  | begun => exact ⟨h.behind, h.le_tally, h.distributed, h.lost⟩
  | found => exact ⟨h.behind, h.le_tally, h.distributed, h.lost⟩
  | clear => exact ⟨h.behind, h.le_tally, h.distributed, h.lost⟩
  | waiting => exact ⟨h.behind, h.le_tally, h.distributed, h.lost⟩
  | leased => exact ⟨h.behind, h.le_tally, h.distributed, h.lost⟩
  | record _ hstep => exact ⟨h.behind_step hstep, h.le_tally, h.distributed, h.lost⟩
  | committed _ _ hstep =>
    exact ⟨h.behind_step hstep, fun id generation n hread => (h.le_tally id generation n hread).step,
      h.distributed.step, h.lost.step⟩
  | rolledBack _ hstep => exact ⟨h.behind_step hstep, h.le_tally, h.distributed, h.lost⟩
  | @readTally job id generation hjob hid hgeneration hread =>
    refine ⟨fun id' generation' hread' => ?_, fun id' generation' n hread' => ?_, h.distributed,
      h.lost⟩
    · by_cases hsame : id' = id ∧ generation' = generation
      · obtain ⟨rfl, rfl⟩ := hsame
        refine ⟨hid ▸ hwf.settled hjob, fun other hother hid' => ?_⟩
        rw [hwf.eq_of_id hother hjob (hid'.trans hid.symm), hgeneration]
      · simp only [if_neg hsame] at hread'
        exact h.behind id' generation' hread'
    · simp only at hread'
      split_ifs at hread' with hsame
      · exact (Option.some.inj hread').ge
      · exact h.le_tally id' generation' n hread'

theorem readsBehind_initial (now : ℤ) : ReadsBehind (.initial now) where
  behind _ _ hread := absurd rfl hread
  le_tally _ _ _ hread := by cases hread
  distributed := Nat.le_refl _
  lost := Nat.le_refl _

theorem readsBehind_of_run {now : ℤ} (h : Run (UpdateStep env pollId) (.initial now) ops σ) :
    ReadsBehind σ := by
  refine h.invariant (P := fun _ σ => ReadsBehind σ) (readsBehind_initial now) ?_
  intro _ _ _ _ run hbehind hstep
  obtain ⟨labels, hqueue⟩ := queue_run run
  exact hbehind.change (wellFormed_of_run (run_of_outbox hqueue)) (step_change hstep)

/-! ### What still has to be read -/

/-- An event is to be dispatched, or a live job has not read a tally of fewer than `n` votes in an
    attempt that can still complete. -/
def Awaited (pollId : ℤ) (σ : System) (n : ℕ) : Prop :=
  (∃ event ∈ σ.queue.events, isPendingUpdate pollId event = true) ∨
  ∃ job ∈ σ.queue.jobs, isActiveUpdate pollId job = true ∧
    (job.held σ.queue.now = true → ∀ m, σ.reads job.id job.generation = some m → n ≤ m)

/-- A completed run has read the first `n` votes, or one will, or a job died after them. -/
def Kept (pollId : ℤ) (σ : System) (n : ℕ) : Prop :=
  n ≤ σ.distributed ∨ n ≤ σ.lost ∨ Awaited pollId σ n

theorem isActiveUpdate_of_same {job job' : Job} (hactive : isActiveUpdate pollId job = true)
    (hsame : SameAttempt job job') (hlive : job'.live = true) :
    isActiveUpdate pollId job' = true := by
  obtain ⟨hupdate, -⟩ := isActiveUpdate_iff.mp hactive
  exact isActiveUpdate_iff.mpr ⟨hsame.kind ▸ hsame.logicalKey ▸ hupdate, hlive⟩

theorem isUpdateJob_of_mem {job : Job} {id : ℕ} (hjob : job ∈ σ.queue.jobs) (hid : job.id = id)
    (hactive : isActiveUpdate pollId job = true) : σ.isUpdateJob pollId id = true :=
  List.any_eq_true.mpr ⟨job, hjob, by rw [hactive, Bool.and_true, decide_eq_true_eq, hid]⟩

/-- An event that is to be dispatched still is, or its job has been committed. -/
theorem event_step (hc : Orderly pollId σ) (hpermits : σ.permits pollId op = true)
    (htable : EventTable env σ.queue) (hdelivering : Delivering env σ.queue)
    (hunclaimed : Unclaimed σ.queue) (hstep : Step env σ.queue (op, response) s') {event : Event}
    (hevent : event ∈ σ.queue.events) (hpending : isPendingUpdate pollId event = true) :
    event ∈ s'.events ∨
      ∃ job ∈ s'.jobs, isActiveUpdate pollId job = true ∧ job.held s'.now = false := by
  obtain ⟨hupdate, -⟩ := isPendingUpdate_iff.mp hpending
  rcases step_keeps_event hstep hevent with hkept | ⟨kind, logicalKey, rfl, rfl, hkey⟩ |
    ⟨t, version, rfl, hversion, hid⟩
  · exact .inl hkept
  · rw [hkey] at hupdate
    simp [System.permits, hupdate] at hpermits
  · obtain ⟨-, hkind, hlogicalKey⟩ := htable.version _ hversion event hevent hid.symm
    have hsame : isUpdate pollId version.kind version.logicalKey = true :=
      hkind ▸ hlogicalKey ▸ hupdate
    have hmarked : version.dispatchedAt ≠ none := by
      intro hnone
      obtain ⟨v, hvoting, htxn, -⟩ := hc.own _ hversion (isPendingUpdate_iff.mpr ⟨hsame, hnone⟩)
      exact permits_enters hpermits hvoting (congrArg some htxn.symm)
    obtain ⟨job, hjob, spec, hspec, -, hjobkind, hjobkey, -⟩ := hdelivering.marked _ hversion hmarked
    obtain ⟨hspeckind, hspeckey, -⟩ := outboxSpec_ok hspec
    obtain ⟨id, new, heq⟩ := hunclaimed.pending _ hjob
    have hwaiting : job.status = .waiting := congrArg Job.status heq
    obtain rfl := commit_of_step hstep
    refine .inr ⟨job, List.mem_append_right _ (mem_own.mpr hjob), ?_, waiting_not_held hwaiting _⟩
    exact isActiveUpdate_iff.mpr
      ⟨by rw [hjobkind, hspeckind, hjobkey, hspeckey]; exact hsame, waiting_live hwaiting⟩

/-- A job that has not read too little has not afterwards, unless its run has ended. -/
theorem job_step {n : ℕ} (hn : n ≤ σ.tally) (hwf : WellFormed σ.queue) (hbehind : ReadsBehind σ)
    (hpermits : σ.permits pollId op = true) (hstep : Step env σ.queue (op, response) s') {job : Job}
    (hjob : job ∈ σ.queue.jobs) (hactive : isActiveUpdate pollId job = true)
    (hread : job.held σ.queue.now = true → ∀ m, σ.reads job.id job.generation = some m → n ≤ m) :
    n ≤ (σ.account pollId op response).distributed ∨ n ≤ (σ.account pollId op response).lost ∨
      ∃ job' ∈ s'.jobs, isActiveUpdate pollId job' = true ∧ (job'.held s'.now = true →
        ∀ m, σ.reads job'.id job'.generation = some m → n ≤ m) := by
  obtain ⟨hupdate, -⟩ := isActiveUpdate_iff.mp hactive
  cases step_fate hwf hstep hjob with
  | unchanged hkept =>
    refine .inr (.inr ⟨job, hkept, hactive, fun hheld => hread ?_⟩)
    exact held_of_later (step_now hstep).1 hheld
  | @claimed leaseOwner _ leaseMilliseconds _ _ _ _ hclaimed =>
    -- The new attempt has read nothing.
    refine .inr (.inr ⟨_, hclaimed, isActiveUpdate_iff.mpr ⟨hupdate, rfl⟩, fun _ m hm => ?_⟩)
    have hnew : σ.reads job.id (job.generation + 1) = some m := hm
    have hle := (hbehind.behind job.id (job.generation + 1) (by rw [hnew]; nofun)).2 job hjob rfl
    exact absurd hle (Nat.not_succ_le_self _)
  | leased hkept hsame hheld hlive =>
    refine .inr (.inr ⟨_, hkept, isActiveUpdate_of_same hactive hsame hlive, fun _ m hm => ?_⟩)
    exact hread hheld m (hsame.id ▸ hsame.generation ▸ hm)
  | returned hkept hsame hwaiting =>
    refine .inr (.inr ⟨_, hkept, isActiveUpdate_of_same hactive hsame (waiting_live hwaiting),
      fun hheld => ?_⟩)
    rw [waiting_not_held hwaiting] at hheld
    cases hheld
  | @completed id leaseOwner generation hop hresponse hid hgeneration hheld =>
    subst hop hresponse
    have hmine := isUpdateJob_of_mem hjob hid hactive
    have hsome : (σ.reads id generation).isSome = true := by
      simp only [System.permits, hmine, Bool.and_eq_true, Bool.not_true, Bool.false_or] at hpermits
      exact hpermits.2
    obtain ⟨m, hm⟩ := Option.isSome_iff_exists.mp hsome
    left
    simp only [System.account, if_pos hmine, hm, Option.getD_some]
    exact Nat.le_trans (hread hheld m (hid ▸ hgeneration ▸ hm)) (Nat.le_max_right _ _)
  | exhausted hop hresponse hid =>
    subst hop hresponse
    right; left
    simpa only [System.account, if_pos (isUpdateJob_of_mem hjob hid hactive)] using hn
  | dead hop hresponse hid =>
    subst hop hresponse
    right; left
    simpa only [System.account, if_pos (isUpdateJob_of_mem hjob hid hactive)] using hn
  | cancelled hop hkind hlogicalKey =>
    subst hop
    rw [hkind, hlogicalKey] at hupdate
    simp [System.permits, hupdate] at hpermits

theorem Kept.queue {n : ℕ} (h : Kept pollId σ n) (hn : n ≤ σ.tally) (hc : Orderly pollId σ)
    (hwf : WellFormed σ.queue) (htable : EventTable env σ.queue)
    (hdelivering : Delivering env σ.queue) (hunclaimed : Unclaimed σ.queue)
    (hbehind : ReadsBehind σ) (hpermits : σ.permits pollId op = true)
    (hstep : Step env σ.queue (op, response) s') :
    Kept pollId { σ.account pollId op response with queue := s' } n := by
  have hreads := (account_frame σ pollId op response).2.2.2
  rcases h with hdistributed | hlost | ⟨event, hevent, hpending⟩ | ⟨job, hjob, hactive, hread⟩
  · rcases account_cases σ pollId op response with ⟨hle, -⟩ | ⟨heq, -⟩
    · exact .inl (Nat.le_trans hdistributed hle)
    · exact .inl (heq.symm ▸ hdistributed)
  · rcases account_cases σ pollId op response with ⟨-, heq⟩ | ⟨-, heq⟩
    · exact .inr (.inl (heq.symm ▸ hlost))
    · exact .inr (.inl (heq.symm ▸ hn))
  · rcases event_step hc hpermits htable hdelivering hunclaimed hstep hevent hpending with
      hkept | ⟨job, hjob, hactive, hheld⟩
    · exact .inr (.inr (.inl ⟨event, hkept, hpending⟩))
    · refine .inr (.inr (.inr ⟨job, hjob, hactive, fun hheld' => ?_⟩))
      rw [hheld] at hheld'
      cases hheld'
  · rcases job_step hn hwf hbehind hpermits hstep hjob hactive hread with
      hdistributed | hlost | ⟨job', hjob', hactive', hread'⟩
    · exact .inl hdistributed
    · exact .inr (.inl hlost)
    · exact .inr (.inr (.inr ⟨job', hjob', hactive', fun hheld m hm => hread' hheld m (hreads ▸ hm)⟩))

/-! ### When a vote commits -/

/-- An event is to be dispatched, or a live job has not read the tally in an attempt that can still
    complete. -/
def Unread (pollId : ℤ) (σ : System) : Prop :=
  (∃ event ∈ σ.queue.events, isPendingUpdate pollId event = true) ∨
  ∃ job ∈ σ.queue.jobs, isActiveUpdate pollId job = true ∧
    (job.held σ.queue.now = true → σ.reads job.id job.generation = none)

theorem Unread.awaited (h : Unread pollId σ) (n : ℕ) : Awaited pollId σ n := by
  refine h.imp_right ?_
  rintro ⟨job, hjob, hactive, hread⟩
  refine ⟨job, hjob, hactive, fun hheld m hm => ?_⟩
  rw [hread hheld] at hm
  cases hm

/-- The vote has recorded an event, or what it relies on is still there. -/
theorem unread_of_commit (hc : Orderly pollId σ) (htable : EventTable env σ.queue)
    (hvoting : σ.voting = some v) (hreturned : v.stage.returned = true) {tally : ℕ} :
    Unread pollId { σ with queue := σ.queue.commit v.txn, voting := none, tally := tally } := by
  have hv := hc.voting v hvoting
  cases hstage : v.stage with
  | voted => rw [hstage] at hreturned; cases hreturned
  | outboxRead => rw [hstage] at hreturned; cases hreturned
  | recording => rw [hstage] at hreturned; cases hreturned
  | recorded =>
    obtain ⟨event, hrow, hpending⟩ := hv.recorded hstage
    exact .inl ⟨event, applyEvents_writes (own_ids_nodup htable.pendingNodup v.txn)
      (mem_own.mpr hrow), hpending⟩
  | served =>
    rcases hv.served hstage with ⟨event, hevent, -, hpending, -⟩ | ⟨job, hjob, -, hactive, hheld⟩
    · refine .inl ⟨event, applyEvents_keeps hevent fun version hversion hid => ?_, hpending⟩
      have hrow := mem_own.mp hversion
      obtain ⟨-, hkind, hkey⟩ := htable.version _ hrow event hevent hid.symm
      have hversion : isPendingUpdate pollId version = true := isPendingUpdate_iff.mpr
        ⟨hkind ▸ hkey ▸ (isPendingUpdate_iff.mp hpending).1, hv.unmarked version hrow⟩
      rw [not_recorded_of_stage hc hvoting (by rw [hstage]; nofun) _ hrow] at hversion
      cases hversion
    · refine .inr ⟨job, List.mem_append_left _ hjob, hactive, fun hheld' => ?_⟩
      have hheld' : job.held σ.queue.now = true := hheld'
      rw [hheld] at hheld'
      cases hheld'

theorem Awaited.congr {n : ℕ} (h : Awaited pollId σ n) (hevents : σ'.queue.events = σ.queue.events)
    (hjobs : σ'.queue.jobs = σ.queue.jobs) (hnow : σ'.queue.now = σ.queue.now)
    (hreads : σ'.reads = σ.reads) : Awaited pollId σ' n := by
  rw [Awaited, hevents, hjobs, hnow, hreads]
  exact h

theorem Kept.congr {n : ℕ} (h : Kept pollId σ n) (hevents : σ'.queue.events = σ.queue.events)
    (hjobs : σ'.queue.jobs = σ.queue.jobs) (hnow : σ'.queue.now = σ.queue.now)
    (hreads : σ'.reads = σ.reads) (hdistributed : σ'.distributed = σ.distributed)
    (hlost : σ'.lost = σ.lost) : Kept pollId σ' n := by
  rw [Kept, hdistributed, hlost]
  exact h.imp_right (Or.imp_right fun hawaited => hawaited.congr hevents hjobs hnow hreads)

theorem Kept.change {n : ℕ} (h : ∀ n ≤ σ.tally, Kept pollId σ n) (hc : Orderly pollId σ)
    (hwf : WellFormed σ.queue) (htable : EventTable env σ.queue)
    (hdelivering : Delivering env σ.queue) (hunclaimed : Unclaimed σ.queue)
    (hbehind : ReadsBehind σ) {op : UpdateOp} (hchange : Change env pollId σ op σ')
    (hn : n ≤ σ'.tally) : Kept pollId σ' n := by
  cases hchange with
  | @queue op response _ hpermits hstep =>
    have hn : n ≤ σ.tally := (account_frame σ pollId op response).2.2.1 ▸ hn
    exact (h n hn).queue hn hc hwf htable hdelivering hunclaimed hbehind hpermits hstep
  | begun => exact (h n hn).congr rfl rfl rfl rfl rfl rfl
  | found => exact (h n hn).congr rfl rfl rfl rfl rfl rfl
  | clear => exact (h n hn).congr rfl rfl rfl rfl rfl rfl
  | waiting => exact (h n hn).congr rfl rfl rfl rfl rfl rfl
  | leased => exact (h n hn).congr rfl rfl rfl rfl rfl rfl
  | record _ hstep =>
    obtain ⟨hevents, hjobs, hnow⟩ := recordOutbox_frame hstep
    exact (h n hn).congr hevents hjobs hnow rfl rfl rfl
  | committed hvoting hreturned hstep =>
    obtain rfl := commit_of_step hstep
    exact .inr (.inr ((unread_of_commit hc htable hvoting hreturned).awaited n))
  | rolledBack _ hstep =>
    obtain rfl := rollback_of_step hstep
    exact (h n hn).congr rfl rfl rfl rfl rfl rfl
  | @readTally job id generation =>
    rcases h n hn with hdistributed | hlost | hevent | ⟨job, hjob, hactive, hread⟩
    · exact .inl hdistributed
    · exact .inr (.inl hlost)
    · exact .inr (.inr (.inl hevent))
    · refine .inr (.inr (.inr ⟨job, hjob, hactive, fun hheld m hm => ?_⟩))
      simp only at hm
      split_ifs at hm
      · exact Option.some.inj hm ▸ hn
      · exact hread hheld m hm

theorem kept_of_run {now : ℤ} (h : Run (UpdateStep env pollId) (.initial now) ops σ) :
    ∀ n ≤ σ.tally, Kept pollId σ n := by
  refine h.invariant (P := fun _ σ => ∀ n ≤ σ.tally, Kept pollId σ n)
    (fun n hn => .inl hn) ?_
  intro _ _ _ _ run hkept hstep n hn
  obtain ⟨labels, hqueue⟩ := queue_run run
  have hrun := run_of_outbox hqueue
  exact Kept.change hkept (orderly_of_run run) (wellFormed_of_run hrun) (eventTable_of_run hrun)
    (delivering_of_run hqueue) (unclaimed_of_run hrun) (readsBehind_of_run run)
    (step_change hstep) hn

/-! ### No lost update -/

/-- What holds in every state that votes, dispatches and workers reach. -/
structure NoLostUpdate (env : Env) (pollId now : ℤ) (ops : List UpdateOp) (σ : System) : Prop where
  /-- Once a vote is committed an event is to be dispatched, or a live job has not read the tally in
      an attempt that can still complete. -/
  unread : ∀ σ', UpdateStep env pollId σ .commitVote σ' →
    σ'.tally = σ.tally + 1 ∧ Unread pollId σ'
  /-- From then on that remains so until a completed run has read a tally with the vote, or a job of
      the poll dies. -/
  kept : ∀ n ≤ σ.tally, Kept pollId σ n
  distributed : σ.distributed ≤ σ.tally
  /-- With no entry left all votes have been distributed, or a job died after the last one. -/
  settled : entries pollId (fun _ => true) σ.queue = 0 →
    σ.distributed = σ.tally ∨ σ.lost = σ.tally
  /-- One entry at most is waiting for its first run, -/
  unstarted : entries pollId isUnstarted σ.queue ≤ 1
  /-- and there is at most one entry more than jobs of the poll have been leased at a time. -/
  bounded : ∀ bound, (∀ pre post τ, ops = pre ++ post →
      Run (UpdateStep env pollId) (.initial now) pre τ →
      leasedUpdates pollId (fun _ => true) τ.queue ≤ bound) →
    entries pollId (fun _ => true) σ.queue ≤ bound + 1

theorem not_awaited_of_entries {n : ℕ} (h : entries pollId (fun _ => true) σ.queue = 0) :
    ¬ Awaited pollId σ n := by
  obtain ⟨hevents, hjobs⟩ := Nat.add_eq_zero_iff.mp h
  rintro (⟨event, hevent, hpending⟩ | ⟨job, hjob, hactive, -⟩)
  · exact List.countP_eq_zero.mp hevents event hevent hpending
  · exact List.countP_eq_zero.mp hjobs job hjob (by rw [hactive, Bool.and_true])

/-- CORRECT (poll updates): in every interleaving of votes on a poll with dispatches and workers. -/
theorem no_lost_update (env : Env) (pollId now : ℤ) (ops : List UpdateOp) (σ : System)
    (h : Run (UpdateStep env pollId) (.initial now) ops σ) :
    NoLostUpdate env pollId now ops σ where
  unread σ' hstep := by
    obtain ⟨labels, hqueue⟩ := queue_run h
    cases step_change hstep with
    | committed hvoting hreturned hcommit =>
      obtain rfl := commit_of_step hcommit
      exact ⟨rfl, unread_of_commit (orderly_of_run h) (eventTable_of_run (run_of_outbox hqueue))
        hvoting hreturned⟩
  kept := kept_of_run h
  distributed := (readsBehind_of_run h).distributed
  settled hnone := by
    have hbehind := readsBehind_of_run h
    rcases kept_of_run h σ.tally (Nat.le_refl _) with hdistributed | hlost | hawaited
    · exact .inl (Nat.le_antisymm hbehind.distributed hdistributed)
    · exact .inr (Nat.le_antisymm hbehind.lost hlost)
    · exact absurd hawaited (not_awaited_of_entries hnone)
  unstarted := unstarted_le_one h
  bounded _ hleased := (bounded_of_run hereditary_all h hleased).le

/-- Takes steps one after the other. -/
def execUpdates (env : Env) (pollId : ℤ) (σ : System) : List UpdateOp → Option System
  | [] => some σ
  | op :: ops => (σ.step env pollId op).bind fun σ' => execUpdates env pollId σ' ops

theorem execUpdates_run : ∀ {σ : System} {ops : List UpdateOp},
    execUpdates env pollId σ ops = some σ' → Run (UpdateStep env pollId) σ ops σ'
  | _, [], h => by
    obtain rfl := Option.some.inj h
    exact .nil
  | σ, op :: ops, h => by
    obtain ⟨σ₁, hstep, hrest⟩ := Option.bind_eq_some_iff.mp h
    exact .cons hstep (execUpdates_run hrest)

def sampleVersion : UpdateVersion := ⟨1, 0, 0, -180000000⟩

def sampleVote (t : TxnId) : List UpdateOp :=
  [.beginVote t, .selectOutbox, .selectJobs, .record sampleVersion, .commitVote]

def sampleDispatch (t : TxnId) : List UpdateOp :=
  [.queue (.dispatchOutbox t 10 []), .queue (.next t), .queue (.commit t)]

def sampleClaim : UpdateOp := .queue (.claim "worker" [.push] 1000 [])

/-- A vote comes in while a job has read the tally, and is distributed by the job that follows. -/
def followed : List UpdateOp :=
  sampleVote 1 ++ sampleDispatch 2 ++ [sampleClaim, .readTally 1 1] ++ sampleVote 3 ++
    sampleDispatch 4 ++ [.queue (.complete 1 "worker" 1), sampleClaim, .readTally 2 1,
      .queue (.complete 2 "worker" 1)]

theorem no_lost_update_followed : ∃ σ,
    execUpdates epochEnv 1 (.initial 0) followed = some σ ∧ σ.tally = 2 ∧ σ.distributed = 2 ∧
    NoLostUpdate epochEnv 1 0 followed σ := by
  have hresult : ((execUpdates epochEnv 1 (.initial 0) followed).map fun σ =>
      (σ.tally, σ.distributed)) = some (2, 2) := by decide
  obtain ⟨σ, hexec, hcounts⟩ := Option.map_eq_some_iff.mp hresult
  obtain ⟨htally, hdistributed⟩ := Prod.mk.inj hcounts
  exact ⟨σ, hexec, htally, hdistributed, no_lost_update _ _ _ _ _ (execUpdates_run hexec)⟩

/-- An attempt of the job that fails for the moment. -/
def failingAttempt (attempt : ℕ) : List UpdateOp :=
  [sampleClaim, .queue (.retry
    { id := 1, lane := .push, kind := activitypubStatusDistributionJobKind
      arguments := (updateJob sampleVersion (baseLogicalKey 1)).arguments
      logicalKey := some (baseLogicalKey 1), runAt := 0, attempt := attempt, maxAttempts := 25
      generation := attempt, leaseOwner := "worker", leaseExpiresAt := 1000000 }
    0 "remote follower lookup failed")]

/-- All 25 attempts fail, and the job dies with the vote. -/
def exhausting : List UpdateOp :=
  sampleVote 1 ++ sampleDispatch 2 ++ (List.range 25).flatMap fun n => failingAttempt (n + 1)

theorem update_lost : ¬ ∀ ops σ, Run (UpdateStep epochEnv 1) (.initial 0) ops σ →
    σ.tally ≤ σ.distributed ∨ Awaited 1 σ σ.tally := by
  intro hall
  have hresult : ((execUpdates epochEnv 1 (.initial 0) exhausting).map fun σ =>
      (σ.tally, σ.distributed, entries 1 (fun _ => true) σ.queue)) = some (1, 0, 0) := by
    decide
  obtain ⟨σ, hexec, hcounts⟩ := Option.map_eq_some_iff.mp hresult
  obtain ⟨htally, hrest⟩ := Prod.mk.inj hcounts
  obtain ⟨hdistributed, hentries⟩ := Prod.mk.inj hrest
  rcases hall exhausting σ (execUpdates_run hexec) with hle | hawaited
  · omega
  · exact not_awaited_of_entries hentries hawaited

end Rustodon.Polls
