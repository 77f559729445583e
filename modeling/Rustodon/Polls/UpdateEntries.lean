import Rustodon.Polls.DistributionRuns
import Rustodon.Schemes.Counts

/-! @src mastodon/write_repository.rs, jobs.rs | name:Pending entries of a poll |
    scheme:coalescing | family:polls

    How many events and live jobs there are for a poll. A vote records an event when there is none
    and all jobs are leased, and a dispatch turns the event into a job: of the entries that no worker
    has begun with there is one at most, however many votes arrive. -/

namespace Rustodon.Polls
open Queue Schemes.Runs Schemes.Counts

variable {env : Env} {pollId : ℤ} {σ σ' : System} {s s' : State} {op : Op} {response : Response}
  {ops : List UpdateOp} {v : Voting}

/-- The events to be dispatched and the live jobs of a kind. -/
def entries (pollId : ℤ) (p : Job → Bool) (s : State) : ℕ :=
  s.events.countP (isPendingUpdate pollId) +
    s.jobs.countP fun job => isActiveUpdate pollId job && p job

/-- The jobs among them that are leased. -/
def leasedUpdates (pollId : ℤ) (p : Job → Bool) (s : State) : ℕ :=
  s.jobs.countP fun job => isActiveUpdate pollId job && p job && job.held s.now

/-- What a statement leaves of a job counts only if the job did. -/
def Hereditary (p : Job → Bool) : Prop :=
  ∀ {env : Env} {s : State} {op : Op} {job job' : Job}, Effect env s op job (some job') →
    p job' = true → p job = true

theorem hereditary_all : Hereditary fun _ => true := fun _ _ => rfl

/-- A job that nobody has claimed. -/
def isUnstarted (job : Job) : Bool := job.generation == 0

theorem hereditary_unstarted : Hereditary isUnstarted := by
  intro env s op job job' heffect hzero
  have hzero : job'.generation = 0 := by simpa [isUnstarted] using hzero
  have hle := heffect.keeps.2.2.2
  simpa [isUnstarted] using Nat.le_zero.mp (hzero ▸ hle)

theorem effect_live (hwf : WellFormed s) {job job' : Job} (hjob : job ∈ s.jobs)
    (heffect : Effect env s op job (some job')) (hlive : job'.live = true) : job.live = true := by
  refine heffect.live (fun lanes skipped found hfound hid => ?_) hlive
  obtain ⟨hmem, hclaimable⟩ := candidate_mem hfound
  obtain rfl := hwf.eq_of_id hjob hmem hid
  simp only [claimable, Bool.and_eq_true, and_assoc] at hclaimable
  exact hclaimable.1

/-- Statements make no more jobs. -/
theorem jobs_countP_le {p : Job → Bool} (hp : Hereditary p) (hwf : WellFormed s)
    {effect : Job → Option Job} (heffect : ∀ job, Effect env s op job (effect job)) :
    (s.jobs.filterMap effect).countP (fun job => isActiveUpdate pollId job && p job) ≤
      s.jobs.countP fun job => isActiveUpdate pollId job && p job := by
  refine countP_filterMap_le fun job hjob job' heq hcounts => ?_
  have hone : Effect env s op job (some job') := heq ▸ heffect job
  obtain ⟨hactive, hpjob⟩ := Bool.and_eq_true_iff.mp hcounts
  obtain ⟨hupdate, hlive⟩ := isActiveUpdate_iff.mp hactive
  obtain ⟨-, hkind, hkey, -⟩ := hone.keeps
  exact Bool.and_eq_true_iff.mpr ⟨isActiveUpdate_iff.mpr
    ⟨hkind ▸ hkey ▸ hupdate, effect_live hwf hjob hone hlive⟩, hp hone hpjob⟩

/-- One event of the poll at most is to be dispatched. -/
theorem Orderly.countP_le_one (hc : Orderly pollId σ) (htable : EventTable env σ.queue) :
    σ.queue.events.countP (isPendingUpdate pollId) ≤ 1 :=
  Schemes.Counts.countP_le_one (List.Nodup.of_map _ htable.nodup) hc.one

/-- The job of a dispatch comes with the mark of the event of the poll. -/
theorem marked_of_job (htable : EventTable env σ.queue) (hmarks : MarksJobs σ.queue) {t : TxnId}
    {job : Job} (hjob : (t, job) ∈ σ.queue.pendingJobs) (hactive : isActiveUpdate pollId job = true) :
    ∃ version, (t, version) ∈ σ.queue.pendingEvents ∧ version.dispatchedAt ≠ none ∧
      job.kind = version.kind ∧ job.logicalKey = version.logicalKey ∧
      { version with dispatchedAt := none } ∈ σ.queue.events ∧
      isPendingUpdate pollId { version with dispatchedAt := none } = true := by
  obtain ⟨hupdate, -⟩ := isActiveUpdate_iff.mp hactive
  rcases (hmarks _ hjob).2 with hdelivery | ⟨version, hversion, hdispatched, hkind, hkey⟩
  · have hdelivery : job.kind = activitypubDeliveryJobKind := hdelivery
    have hne : (activitypubDeliveryJobKind == activitypubStatusDistributionJobKind) = false := by
      decide
    rw [isUpdate, hdelivery] at hupdate
    simp [beq_eq_false_iff_ne.mp hne] at hupdate
  · have hkind : job.kind = version.kind := hkind
    have hkey : job.logicalKey = version.logicalKey := hkey
    exact ⟨version, hversion, hdispatched, hkind, hkey, htable.marked _ hversion hdispatched,
      isPendingUpdate_iff.mpr ⟨hkind ▸ hkey ▸ hupdate, rfl⟩⟩

/-- A dispatch that commits a job of the poll takes its event. -/
theorem entries_commit (hc : Orderly pollId σ) (hwf : WellFormed σ.queue)
    (htable : EventTable env σ.queue) (hmarks : MarksJobs σ.queue) (hone : OneLive σ.queue)
    {t : TxnId} (hpermits : σ.permits pollId (.commit t) = true) (p : Job → Bool)
    (hevents : (σ.queue.commit t).events.countP (isPendingUpdate pollId) ≤
      σ.queue.events.countP (isPendingUpdate pollId)) :
    entries pollId p (σ.queue.commit t) ≤ entries pollId p σ.queue := by
  have hjobs : (σ.queue.commit t).jobs = σ.queue.jobs ++ own t σ.queue.pendingJobs := rfl
  rw [entries, entries, hjobs, List.countP_append]
  by_cases hnone : (own t σ.queue.pendingJobs).countP (fun job => isActiveUpdate pollId job && p job) = 0
  · omega
  obtain ⟨job, hjob, hcounts⟩ := List.countP_pos_iff.mp (Nat.pos_of_ne_zero hnone)
  obtain ⟨version, hversion, hdispatched, -, -, hold, hpending⟩ :=
    marked_of_job htable hmarks (mem_own.mp hjob) (Bool.and_eq_true_iff.mp hcounts).1
  have hbefore : 1 ≤ σ.queue.events.countP (isPendingUpdate pollId) :=
    List.countP_pos_iff.mpr ⟨_, hold, hpending⟩
  have hafter : (σ.queue.commit t).events.countP (isPendingUpdate pollId) = 0 := by
    refine List.countP_eq_zero.mpr fun event hevent hupdate => ?_
    rcases mem_applyEvents hevent with ⟨hkept, hversions⟩ | hown
    · refine hversions version (mem_own.mpr hversion) ?_
      rw [hc.one event hkept _ hold hupdate hpending]
    · obtain ⟨v, hvoting, htxn, -⟩ := hc.own _ (mem_own.mp hown) hupdate
      exact permits_enters hpermits hvoting (congrArg some htxn.symm)
  have hcount : (own t σ.queue.pendingJobs).countP
      (fun job => isActiveUpdate pollId job && p job) ≤ 1 := by
    have hnodup : (σ.queue.pendingJobs.map fun row => row.2.id).Nodup :=
      List.Nodup.of_append_right hwf.nodup
    have hown : (own t σ.queue.pendingJobs).Nodup := by
      refine List.Nodup.of_map Job.id ?_
      rw [own, List.map_map]
      exact hnodup.sublist (List.filter_sublist.map _)
    refine Schemes.Counts.countP_le_one hown fun a ha b hb hcounts hcounts' => ?_
    obtain ⟨hactive, -⟩ := Bool.and_eq_true_iff.mp hcounts
    obtain ⟨hactive', -⟩ := Bool.and_eq_true_iff.mp hcounts'
    obtain ⟨w, -, -, hkind, hkey, hmem, hw⟩ := marked_of_job htable hmarks (mem_own.mp ha) hactive
    obtain ⟨w', -, -, hkind', hkey', hmem', hw'⟩ := marked_of_job htable hmarks (mem_own.mp hb) hactive'
    obtain ⟨-, hkinds, hkeys, -⟩ := Event.mk.inj (hc.one _ hmem _ hmem' hw hw')
    obtain ⟨hupdate, hlive⟩ := isActiveUpdate_iff.mp hactive
    have hid : a.id = b.id := by
      refine hone a b (.pending (mem_own.mp ha)) (.pending (mem_own.mp hb)) ?_ ?_ ?_ hlive
        (isActiveUpdate_iff.mp hactive').2
      · rw [hkind, hkind', hkinds]
      · rw [hkey, hkey', hkeys]
      · intro hnokey
        rw [isUpdate, hnokey] at hupdate
        simp at hupdate
    have hrow := List.inj_on_of_nodup_map hnodup (mem_own.mp ha) (mem_own.mp hb) hid
    exact (Prod.mk.inj hrow).2
  omega

/-- The steps of others make no more entries. -/
theorem entries_queue (hc : Orderly pollId σ) (hwf : WellFormed σ.queue)
    (htable : EventTable env σ.queue) (hmarks : MarksJobs σ.queue) (hone : OneLive σ.queue)
    (htable' : EventTable env s') (hpermits : σ.permits pollId op = true)
    (hstep : Step env σ.queue (op, response) s') {p : Job → Bool} (hp : Hereditary p) :
    entries pollId p s' ≤ entries pollId p σ.queue := by
  have hevents : s'.events.countP (isPendingUpdate pollId) ≤
      σ.queue.events.countP (isPendingUpdate pollId) := by
    have hc' := hc.queue hpermits htable hstep
    exact countP_le_of_mem (hc'.countP_le_one htable') fun event hevent hpending =>
      ⟨event, events_before hc hpermits hstep hevent hpending, hpending⟩
  rcases step_jobs hstep with ⟨effect, heffect, hjobs⟩ | ⟨t, rfl, rfl⟩
  · rw [entries, entries, hjobs]
    have hle : (σ.queue.jobs.filterMap effect).countP (fun job => isActiveUpdate pollId job && p job) ≤
        σ.queue.jobs.countP fun job => isActiveUpdate pollId job && p job :=
      jobs_countP_le hp hwf heffect
    omega
  · exact entries_commit hc hwf htable hmarks hone hpermits p hevents

/-- The transaction of a vote commits its update, and no jobs. -/
theorem entries_commitVote (hc : Orderly pollId σ)
    (htable : EventTable env (σ.queue.commit v.txn)) (hvoting : σ.voting = some v)
    (p : Job → Bool) :
    entries pollId p (σ.queue.commit v.txn) ≤ entries pollId p σ.queue + 1 ∧
      (v.stage ≠ .recorded → entries pollId p (σ.queue.commit v.txn) ≤ entries pollId p σ.queue) := by
  have hv := hc.voting v hvoting
  have hjobs : (σ.queue.commit v.txn).jobs = σ.queue.jobs := by
    have hnone : own v.txn σ.queue.pendingJobs = [] :=
      List.eq_nil_iff_forall_not_mem.mpr fun job hjob => hv.jobless job (mem_own.mp hjob)
    simp [State.commit, State.release, hnone]
  have hle : (σ.queue.commit v.txn).events.countP (isPendingUpdate pollId) ≤ 1 :=
    Schemes.Counts.countP_le_one (List.Nodup.of_map _ htable.nodup) (hc.commit hvoting)
  rw [entries, entries, hjobs]
  refine ⟨by omega, fun hstage => ?_⟩
  refine Nat.add_le_add_right (countP_le_of_mem hle fun event hevent hpending => ?_) _
  rcases mem_applyEvents hevent with ⟨hold, -⟩ | hown
  · exact ⟨event, hold, hpending⟩
  · rw [not_recorded_of_stage hc hvoting hstage _ (mem_own.mp hown)] at hpending
    cases hpending

/-- There is one entry more than jobs that were leased, once a vote has committed its update; while
    it records there is none more. -/
structure Bounded (pollId : ℤ) (p : Job → Bool) (bound : ℕ) (σ : System) : Prop where
  le : entries pollId p σ.queue ≤ bound + 1
  recording : ∀ v, σ.voting = some v → v.stage ≠ .voted → v.stage ≠ .outboxRead →
    v.stage ≠ .served → entries pollId p σ.queue ≤ bound

theorem entries_congr {p : Job → Bool} (hevents : s'.events = s.events) (hjobs : s'.jobs = s.jobs) :
    entries pollId p s' = entries pollId p s := by
  rw [entries, entries, hevents, hjobs]

/-- When all jobs of the poll are leased, and no event is to be dispatched. -/
theorem entries_leased {p : Job → Bool}
    (hclear : ∀ event ∈ s.events, isPendingUpdate pollId event = false)
    (hheld : ∀ job ∈ s.jobs, isActiveUpdate pollId job = true → job.held s.now = true) :
    entries pollId p s ≤ leasedUpdates pollId p s := by
  have hevents : s.events.countP (isPendingUpdate pollId) = 0 :=
    List.countP_eq_zero.mpr fun event hevent hpending => by
      rw [hclear event hevent] at hpending
      cases hpending
  rw [entries, hevents, Nat.zero_add]
  refine List.countP_mono_left fun job hjob hcounts => ?_
  rw [hcounts, Bool.true_and]
  exact hheld job hjob (Bool.and_eq_true_iff.mp hcounts).1

theorem Bounded.change {p : Job → Bool} {bound : ℕ} (h : Bounded pollId p bound σ)
    (hp : Hereditary p) (hleased : leasedUpdates pollId p σ.queue ≤ bound)
    (hc : Orderly pollId σ) (hwf : WellFormed σ.queue) (htable : EventTable env σ.queue)
    (hmarks : MarksJobs σ.queue) (hone : OneLive σ.queue) (htable' : EventTable env σ'.queue)
    {op : UpdateOp} (hchange : Change env pollId σ op σ') : Bounded pollId p bound σ' := by
  cases hchange with
  | @queue op response s' hpermits hstep =>
    have hle := entries_queue hc hwf htable hmarks hone htable' hpermits hstep hp
    refine ⟨Nat.le_trans hle h.le, fun v hvoting hvoted hread hserved => Nat.le_trans hle ?_⟩
    have hvoting : σ.voting = some v := (account_frame σ pollId op response).2.1.symm.trans hvoting
    exact h.recording v hvoting hvoted hread hserved
  | begun =>
    refine ⟨h.le, fun v hv hvoted => ?_⟩
    obtain rfl := Option.some.inj hv
    exact absurd rfl hvoted
  | found =>
    refine ⟨h.le, fun v hv _ _ hserved => ?_⟩
    obtain rfl := Option.some.inj hv
    exact absurd rfl hserved
  | clear =>
    refine ⟨h.le, fun v hv _ hread => ?_⟩
    obtain rfl := Option.some.inj hv
    exact absurd rfl hread
  | waiting =>
    refine ⟨h.le, fun v hv _ _ hserved => ?_⟩
    obtain rfl := Option.some.inj hv
    exact absurd rfl hserved
  | leased hvoting hheld =>
    have hv := hc.voting _ hvoting
    refine ⟨h.le, fun _ _ _ _ _ => ?_⟩
    exact Nat.le_trans (entries_leased (hv.clear nofun (hv.unlocked nofun)) hheld) hleased
  | record hvoting hstep =>
    have hle := h.recording _ hvoting nofun nofun nofun
    obtain ⟨hevents, hjobs, -⟩ := recordOutbox_frame hstep
    rw [← entries_congr hevents hjobs] at hle
    exact ⟨Nat.le_succ_of_le hle, fun _ _ _ _ _ => hle⟩
  | @committed v response queue hvoting hreturned hstep =>
    obtain rfl := commit_of_step hstep
    obtain ⟨hmore, hsame⟩ := entries_commitVote hc htable' hvoting p
    refine ⟨?_, nofun⟩
    by_cases hstage : v.stage = .recorded
    · have hle := h.recording v hvoting (by rw [hstage]; nofun) (by rw [hstage]; nofun)
        (by rw [hstage]; nofun)
      exact Nat.le_trans hmore (Nat.add_le_add_right hle 1)
    · exact Nat.le_trans (hsame hstage) h.le
  | rolledBack hvoting hstep =>
    obtain rfl := rollback_of_step hstep
    exact ⟨h.le, nofun⟩
  | readTally => exact ⟨h.le, h.recording⟩

theorem bounded_initial (pollId now : ℤ) (p : Job → Bool) (bound : ℕ) :
    Bounded pollId p bound (.initial now) where
  le := Nat.zero_le _
  recording _ hv := by cases hv

theorem bounded_of_run {now : ℤ} {p : Job → Bool} (hp : Hereditary p) {bound : ℕ}
    (h : Run (UpdateStep env pollId) (.initial now) ops σ) :
    (∀ pre post τ, ops = pre ++ post → Run (UpdateStep env pollId) (.initial now) pre τ →
      leasedUpdates pollId p τ.queue ≤ bound) → Bounded pollId p bound σ := by
  refine h.invariant (P := fun ops σ => (∀ pre post τ, ops = pre ++ post →
    Run (UpdateStep env pollId) (.initial now) pre τ → leasedUpdates pollId p τ.queue ≤ bound) →
      Bounded pollId p bound σ) (fun _ => bounded_initial pollId now p bound) ?_
  intro ops σ op σ' run hbounded hstep hleased
  obtain ⟨labels, hqueue⟩ := queue_run run
  obtain ⟨labels', hqueue'⟩ := queue_run (.snoc run hstep)
  have hrun := run_of_outbox hqueue
  have hbefore : Bounded pollId p bound σ := hbounded fun pre post τ heq hpre =>
    hleased pre (post ++ [op]) τ (by rw [heq, List.append_assoc]) hpre
  exact hbefore.change hp (hleased ops [op] σ rfl run) (orderly_of_run run) (wellFormed_of_run hrun)
    (eventTable_of_run hrun) (marksJobs_of_run hqueue) (oneLive_of_run hrun)
    (eventTable_of_run (run_of_outbox hqueue')) (step_change hstep)

/-- No job is leased that nobody has claimed. -/
theorem leasedUpdates_unstarted (h : Unclaimed s) : leasedUpdates pollId isUnstarted s = 0 := by
  refine List.countP_eq_zero.mpr fun job hjob hcounts => ?_
  obtain ⟨hunstarted, hheld⟩ := Bool.and_eq_true_iff.mp hcounts
  have hzero : job.generation = 0 := by
    simpa [isUnstarted] using (Bool.and_eq_true_iff.mp hunstarted).2
  rw [waiting_not_held (h.waiting job hjob hzero)] at hheld
  cases hheld

/-- At most one entry is left that no worker has begun with. -/
theorem unstarted_le_one {now : ℤ} (h : Run (UpdateStep env pollId) (.initial now) ops σ) :
    entries pollId isUnstarted σ.queue ≤ 1 := by
  refine (bounded_of_run hereditary_unstarted h fun pre post τ _ hpre => ?_).le
  obtain ⟨labels, hqueue⟩ := queue_run hpre
  rw [leasedUpdates_unstarted (unclaimed_of_run (run_of_outbox hqueue))]

end Rustodon.Polls
