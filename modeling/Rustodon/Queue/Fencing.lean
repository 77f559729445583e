import Rustodon.Queue.Steps

/-! @src jobs.rs | name:Lease fencing | scheme:leases | family:queue

    Every statement of a worker proves its lease with the generation that its claim was given. The
    history of the claims and of what the workers were told is compared with the rows. -/

namespace Rustodon.Queue
open Schemes.Checked Schemes.Json Schemes.Runs

variable {env : Env} {s s' : State} {op : Op} {response : Response} {labels : List Label}

/-! ### Rows have ids of their own -/

def State.allIds (s : State) : List ℕ :=
  s.jobs.map Job.id ++ s.pendingJobs.map fun row => row.2.id

/-- Ids are given once. -/
structure WellFormed (s : State) : Prop where
  nodup : s.allIds.Nodup
  lt : ∀ id ∈ s.allIds, id < s.nextJobId

theorem WellFormed.eq_of_id (h : WellFormed s) {a b : Job} (ha : a ∈ s.jobs) (hb : b ∈ s.jobs)
    (hid : a.id = b.id) : a = b :=
  List.inj_on_of_nodup_map (List.Nodup.of_append_left h.nodup) ha hb hid

theorem WellFormed.pending_ne (h : WellFormed s) {job : Job} (hjob : job ∈ s.jobs)
    {row : TxnId × Job} (hrow : row ∈ s.pendingJobs) : row.2.id ≠ job.id := fun heq =>
  List.disjoint_of_nodup_append h.nodup (List.mem_map_of_mem hjob)
    (heq ▸ List.mem_map_of_mem (f := fun row : TxnId × Job => row.2.id) hrow)

theorem WellFormed.job_lt (h : WellFormed s) {job : Job} (hjob : job ∈ s.jobs) :
    job.id < s.nextJobId :=
  h.lt _ (List.mem_append_left _ (List.mem_map_of_mem hjob))

/-- What no statement changes about a row, and which way its generation moves. -/
theorem Effect.keeps {job job' : Job} (h : Effect env s op job (some job')) :
    job'.id = job.id ∧ job'.kind = job.kind ∧ job'.logicalKey = job.logicalKey ∧
      job.generation ≤ job'.generation := by
  generalize hresult : some job' = result at h
  cases h with
  | unchanged => obtain rfl := Option.some.inj hresult; exact ⟨rfl, rfl, rfl, le_rfl⟩
  | claimed => obtain rfl := Option.some.inj hresult; exact ⟨rfl, rfl, rfl, Nat.le_succ _⟩
  | fenced _ _ heffect =>
    cases heffect <;> cases hresult <;> exact ⟨rfl, rfl, rfl, le_rfl⟩
  | cancelled => cases hresult

theorem filterMap_ids_sublist (effect : Job → Option Job)
    (heffect : ∀ job job', effect job = some job' → job'.id = job.id) : ∀ jobs : List Job,
      ((jobs.filterMap effect).map Job.id).Sublist (jobs.map Job.id)
  | [] => .slnil
  | job :: jobs => by
    have ih := filterMap_ids_sublist effect heffect jobs
    rw [List.filterMap_cons, List.map_cons]
    cases hjob : effect job with
    | none => exact .cons _ ih
    | some job' =>
      rw [List.map_cons, heffect job job' hjob]
      exact .cons_cons _ ih

/-- A commit moves the rows of a transaction. -/
theorem own_append_others_perm {α : Type} (t : TxnId) (pending : List (TxnId × α)) :
    (own t pending ++ (others t pending).map Prod.snd).Perm (pending.map Prod.snd) := by
  rw [own, ← List.map_append]
  exact (List.filter_append_perm (fun row => row.1 == t) pending).map Prod.snd

theorem WellFormed.step (h : WellFormed s) (hstep : Step env s (op, response) s') :
    WellFormed s' := by
  rcases step_cases hstep with ⟨statement, hstatement, -, rfl⟩ | ⟨-, htransact⟩
  · have hids := filterMap_ids_sublist statement.effect (fun job job' hjob =>
      (hjob ▸ statement_effect hstatement job : Effect env s op job (some job')).keeps.1) s.jobs
    exact ⟨h.nodup.sublist (hids.append_right _), fun id hid =>
      h.lt id ((hids.append_right _).subset hid)⟩
  · rcases transact_jobsChange htransact with ⟨elapsed, -, rfl⟩ | ⟨-, hchange⟩
    · exact ⟨h.nodup, h.lt⟩
    · cases hchange with
      | frame _ hjobs hpending hnext =>
        have hall : s'.allIds = s.allIds := by rw [State.allIds, State.allIds, hjobs, hpending]
        exact ⟨hall ▸ h.nodup, fun id hid => (h.lt id (hall ▸ hid)).trans_le hnext⟩
      | inserted t spec _ hjobs hpending hnext _ =>
        have hall : s'.allIds = s.allIds ++ [s.nextJobId] := by
          rw [State.allIds, State.allIds, hjobs, hpending, List.map_append, List.append_assoc]
          rfl
        refine ⟨?_, fun id hid => ?_⟩
        · rw [hall]
          refine List.Nodup.append h.nodup (List.nodup_singleton _) fun id hid hnew => ?_
          exact absurd (h.lt id hid) (by simp [List.mem_singleton.mp hnew])
        · rw [hall, List.mem_append, List.mem_singleton] at hid
          rw [hnext]
          rcases hid with hid | rfl
          · exact (h.lt id hid).trans (Nat.lt_succ_self _)
          · exact Nat.lt_succ_self _
      | committed t _ hjobs hpending hnext =>
        have hperm : s'.allIds.Perm s.allIds := by
          rw [State.allIds, State.allIds, hjobs, hpending, List.map_append, List.append_assoc]
          refine List.Perm.append_left _ ?_
          simpa [List.map_map, Function.comp_def] using
            (own_append_others_perm t s.pendingJobs).map Job.id
        exact ⟨hperm.nodup_iff.mpr h.nodup, fun id hid => hnext ▸ h.lt id (hperm.mem_iff.mp hid)⟩
      | rolledBack t _ hjobs hpending hnext =>
        have hsub : s'.allIds.Sublist s.allIds := by
          rw [State.allIds, State.allIds, hjobs, hpending]
          exact .append_left (List.filter_sublist.map _) _
        exact ⟨h.nodup.sublist hsub, fun id hid => hnext ▸ h.lt id (hsub.subset hid)⟩

theorem wellFormed_initial (start : ℤ) : WellFormed (initial start) :=
  ⟨List.nodup_nil, fun _ h => by cases h⟩

theorem wellFormed_of_run {start : ℤ} (h : Run (Step env) (initial start) labels s) :
    WellFormed s :=
  h.preserves (fun _ _ _ hwf hstep => hwf.step hstep) (wellFormed_initial start)

/-! ### Rows that have been committed -/

/-- A row of this id has been committed, and may have been deleted since. -/
def Settled (s : State) (id : ℕ) : Prop :=
  id < s.nextJobId ∧ ∀ row ∈ s.pendingJobs, row.2.id ≠ id

theorem WellFormed.settled (h : WellFormed s) {job : Job} (hjob : job ∈ s.jobs) :
    Settled s job.id :=
  ⟨h.job_lt hjob, fun _ hrow => h.pending_ne hjob hrow⟩

/-- A step takes the rows of a committed id one by one: what the effect of a statement makes of `P`
    holds afterwards. -/
theorem Settled.step {id : ℕ} {P P' : Job → Prop} (h : Settled s id)
    (hrows : ∀ job ∈ s.jobs, job.id = id → P job)
    (heffect : ∀ job ∈ s.jobs, job.id = id → P job → ∀ job', Effect env s op job (some job') →
      P' job')
    (hstep : Step env s (op, response) s') :
    Settled s' id ∧ ∀ job ∈ s'.jobs, job.id = id → P' job := by
  have hsame : ∀ job ∈ s.jobs, job.id = id → P' job := fun job hjob hid =>
    heffect job hjob hid (hrows job hjob hid) job .unchanged
  rcases step_cases hstep with ⟨statement, hstatement, -, rfl⟩ | ⟨-, htransact⟩
  · refine ⟨h, fun job' hjob' hid => ?_⟩
    obtain ⟨job, hjob, heq⟩ := List.mem_filterMap.mp hjob'
    have hone : Effect env s op job (some job') := heq ▸ statement_effect hstatement job
    have hid' : job.id = id := hone.keeps.1.symm.trans hid
    exact heffect job hjob hid' (hrows job hjob hid') job' hone
  · rcases transact_jobsChange htransact with ⟨elapsed, -, rfl⟩ | ⟨-, hchange⟩
    · exact ⟨h, hsame⟩
    · cases hchange with
      | frame _ hjobs hpending hnext =>
        exact ⟨⟨h.1.trans_le hnext, hpending ▸ h.2⟩, hjobs ▸ hsame⟩
      | inserted t spec _ hjobs hpending hnext _ =>
        refine ⟨⟨hnext ▸ h.1.trans (Nat.lt_succ_self _), fun row hrow => ?_⟩, hjobs ▸ hsame⟩
        rw [hpending, List.mem_append, List.mem_singleton] at hrow
        rcases hrow with hrow | rfl
        · exact h.2 row hrow
        · exact h.1.ne'
      | committed t _ hjobs hpending hnext =>
        refine ⟨⟨hnext ▸ h.1, fun row hrow => ?_⟩, fun job hjob hid => ?_⟩
        · exact h.2 row (mem_others.mp (hpending ▸ hrow)).1
        · rw [hjobs, List.mem_append] at hjob
          rcases hjob with hjob | hjob
          · exact hsame job hjob hid
          · exact absurd hid (h.2 _ (mem_own.mp hjob))
      | rolledBack t _ hjobs hpending hnext =>
        refine ⟨⟨hnext ▸ h.1, fun row hrow => ?_⟩, hjobs ▸ hsame⟩
        exact h.2 row (mem_others.mp (hpending ▸ hrow)).1

/-! ### Claims -/

/-- The claim that a label records. -/
def claimOf : Label → Option ClaimedJob
  | (.claim .., .claimed job) => job
  | _ => none

theorem candidate_mem {jobs : List Job} {lanes : List Lane} {now : ℤ} {skipped : List ℕ}
    {found : Job} (h : candidate env jobs lanes now skipped = some found) :
    found ∈ jobs ∧ claimable env jobs lanes now found = true := by
  have hmem := List.mem_of_mem_head? (Option.mem_def.mpr h)
  rw [(List.perm_insertionSort ..).mem_iff, List.mem_filter, Bool.and_eq_true] at hmem
  exact ⟨hmem.1, hmem.2.1⟩

/-- What a claim that returns a job did. -/
theorem claimOf_eq_some {claimed : ClaimedJob} (h : claimOf (op, response) = some claimed)
    (hstep : Step env s (op, response) s') :
    ∃ leaseOwner lanes leaseMilliseconds skipped found,
      op = .claim leaseOwner lanes leaseMilliseconds skipped ∧
      candidate env s.jobs lanes s.now skipped = some found ∧
      claimed = claimedJob (found.claimed leaseOwner s.now leaseMilliseconds) leaseOwner
        (s.now + leaseMilliseconds * 1000) ∧
      s' = { s with jobs := s.jobs.map fun job =>
        if job.id = found.id then job.claimed leaseOwner s.now leaseMilliseconds else job } := by
  rcases step_cases hstep with ⟨statement, hstatement, rfl, rfl⟩ | ⟨hstatement, -⟩
  · rcases statement_cases hstatement with ⟨leaseOwner, lanes, leaseMilliseconds, skipped, rfl, rfl⟩ |
      ⟨kind, logicalKey, rfl, -⟩ | ⟨token, htoken⟩
    · rcases claim_cases env s.jobs s.now leaseOwner lanes leaseMilliseconds skipped with
        ⟨answer, heq, hanswer⟩ | ⟨found, -, hfound, heq⟩
      · rw [heq] at h
        rw [Statement.skip] at h
        cases answer with
        | claimed job => exact absurd (congrArg Response.claimed h) (hanswer claimed)
        | _ => cases h
      · rw [heq] at h ⊢
        obtain rfl := Option.some.inj h
        refine ⟨leaseOwner, lanes, leaseMilliseconds, skipped, found, rfl, hfound, rfl, ?_⟩
        rw [← List.filterMap_eq_map]
        rfl
    · cases h
    · cases op with
      | claim => cases htoken
      | _ => cases h
  · cases op with
    | claim => cases hstatement
    | _ => cases h

/-- The claims of a history: none of a row is behind the row, and generations grow. -/
structure Claims (labels : List Label) (s : State) : Prop where
  known : ∀ claimed ∈ labels.filterMap claimOf, Settled s claimed.id ∧
    ∀ job ∈ s.jobs, job.id = claimed.id → claimed.generation ≤ job.generation
  increasing : (labels.filterMap claimOf).Pairwise fun a b =>
    a.id = b.id → a.generation < b.generation

theorem Claims.step (h : Claims labels s) (hwf : WellFormed s)
    (hstep : Step env s (op, response) s') : Claims (labels ++ [(op, response)]) s' := by
  have hold : ∀ claimed ∈ labels.filterMap claimOf, Settled s' claimed.id ∧
      ∀ job ∈ s'.jobs, job.id = claimed.id → claimed.generation ≤ job.generation := by
    intro claimed hclaimed
    obtain ⟨hsettled, hrows⟩ := h.known claimed hclaimed
    exact hsettled.step hrows (fun job _ _ hjob job' heffect => hjob.trans heffect.keeps.2.2.2) hstep
  cases hnew : claimOf (op, response) with
  | none =>
    have hlist : (labels ++ [(op, response)]).filterMap claimOf = labels.filterMap claimOf := by
      simp [hnew]
    exact ⟨hlist ▸ hold, hlist ▸ h.increasing⟩
  | some claimed =>
    have hlist : (labels ++ [(op, response)]).filterMap claimOf =
        labels.filterMap claimOf ++ [claimed] := by
      simp [hnew]
    obtain ⟨leaseOwner, lanes, leaseMilliseconds, skipped, found, rfl, hfound, rfl, rfl⟩ :=
      claimOf_eq_some hnew hstep
    have hmem := (candidate_mem hfound).1
    constructor
    · rw [hlist]
      intro other hother
      rcases List.mem_append.mp hother with hother | hother
      · exact hold other hother
      · obtain rfl := List.mem_singleton.mp hother
        refine ⟨(hwf.settled hmem : Settled s found.id), fun job hjob hid => ?_⟩
        obtain ⟨row, hrow, rfl⟩ := List.mem_map.mp hjob
        by_cases hrowid : row.id = found.id
        · obtain rfl := hwf.eq_of_id hrow hmem hrowid
          simp only [if_true]
          exact le_rfl
        · rw [if_neg hrowid] at hid
          exact absurd hid hrowid
    · rw [hlist, List.pairwise_append]
      refine ⟨h.increasing, List.pairwise_singleton _ _, fun a ha b hb hid => ?_⟩
      obtain rfl := List.mem_singleton.mp hb
      exact Nat.lt_succ_of_le ((h.known a ha).2 found hmem hid.symm)

theorem claims_of_run {start : ℤ} (h : Run (Step env) (initial start) labels s) :
    Claims labels s :=
  h.invariant (P := Claims) ⟨nofun, .nil⟩
    fun _ _ _ _ run hclaims hstep => hclaims.step (wellFormed_of_run run) hstep

/-! ### Attempts end once -/

/-- `complete`, `retry` and `dead_letter`. -/
def Op.finishing : Op → Bool
  | .complete .. => true
  | .retry .. => true
  | .deadLetter .. => true
  | _ => false

/-- A label that ends the attempt of a claim. -/
def finishes (id generation : ℕ) (label : Label) : Bool :=
  label.1.finishing &&
    label.1.token.any (fun token => token.id == id && token.generation == generation) &&
    label.2.effective

theorem fences_iff {token : Token} {now : ℤ} {job : Job} :
    token.fences now job = true ↔ job.id = token.id ∧ job.leaseOwner = some token.leaseOwner ∧
      job.generation = token.generation ∧ job.live = true ∧ job.held now = true := by
  simp only [Token.fences, Bool.and_eq_true, decide_eq_true_eq, and_assoc]

theorem finishes_eq_true {id generation : ℕ} (h : finishes id generation (op, response) = true) :
    ∃ token, op.token = some token ∧ token.id = id ∧ token.generation = generation ∧
      op.finishing = true ∧ response.effective = true := by
  simp only [finishes, Bool.and_eq_true, Option.any_eq_true, beq_iff_eq] at h
  obtain ⟨⟨hfinishing, token, htoken, hid, hgeneration⟩, heffective⟩ := h
  exact ⟨token, htoken, hid, hgeneration, hfinishing, heffective⟩

theorem no_token_of_transact {token : Token} (hstatement : Queue.statement env s op = none)
    (htoken : op.token = some token) : False := by
  cases op with
  | renew | mergeJobArguments | initializeJobArguments | complete | retry | deadLetter =>
    cases hstatement
  | _ => cases htoken

/-- A statement that takes effect is issued with the lease of a row, and changes that row alone. -/
theorem effective_step {token : Token} (htoken : op.token = some token)
    (heffective : response.effective = true) (hstep : Step env s (op, response) s') :
    ∃ row ∈ s.jobs, token.fences s.now row = true ∧ ∃ effect,
      s' = { s with jobs := s.jobs.filterMap effect } ∧ FencedEffect s.now row op (effect row) ∧
      (∀ job, Effect env s op job (effect job)) ∧
      ∀ job, token.fences s.now job = false → effect job = some job := by
  rcases step_cases hstep with ⟨statement, hstatement, rfl, rfl⟩ | ⟨hstatement, -⟩
  · obtain ⟨row, hrow, hfences⟩ := (statement_effective hstatement htoken).1 heffective
    refine ⟨row, hrow, hfences, statement.effect, rfl, ?_⟩
    have heffects := statement_effect hstatement
    rcases statement_token hstatement htoken with ⟨error, rfl⟩ | ⟨effect, answer, rfl, -, heffect⟩
    · exact Bool.noConfusion heffective
    · refine ⟨?_, heffects, fun job hjob => ?_⟩
      · simp only [fenced, if_pos hfences]
        exact heffect row
      · simp [fenced, hjob]
  · exact (no_token_of_transact hstatement htoken).elim

/-- One that does not leaves everything as it is. -/
theorem ineffective_unchanged {token : Token} (htoken : op.token = some token)
    (heffective : response.effective = false) (hstep : Step env s (op, response) s') : s' = s := by
  rcases step_cases hstep with ⟨statement, hstatement, rfl, rfl⟩ | ⟨hstatement, -⟩
  · have hsame := (statement_effective hstatement htoken).2 heffective
    have hjobs : s.jobs.filterMap statement.effect = s.jobs :=
      (List.filterMap_congr hsame).trans List.filterMap_some
    rw [hjobs]
  · exact (no_token_of_transact hstatement htoken).elim

/-- After an attempt has ended, its row is not leased in the same generation. -/
def Ended (generation : ℕ) (job : Job) : Prop :=
  generation ≤ job.generation ∧ (job.generation = generation → job.leaseOwner = none)

/-- A row whose attempt has ended can only be claimed for a later one. -/
theorem Ended.effect {generation : ℕ} {job job' : Job} (h : Ended generation job)
    (heffect : Effect env s op job (some job')) : Ended generation job' := by
  generalize hresult : some job' = result at heffect
  cases heffect with
  | unchanged => obtain rfl := Option.some.inj hresult; exact h
  | claimed =>
    obtain rfl := Option.some.inj hresult
    exact ⟨Nat.le_succ_of_le h.1, fun heq => absurd heq (Nat.lt_succ_of_le h.1).ne'⟩
  | @fenced token _ htoken hfences heffect =>
    have hgeneration : job.generation ≠ generation := fun heq => by
      have howner := (fences_iff.mp hfences).2.1
      rw [h.2 heq] at howner
      cases howner
    cases heffect <;> cases hresult <;> exact ⟨h.1, fun heq => absurd heq hgeneration⟩
  | cancelled => cases hresult

/-- What ends an attempt takes the lease away. -/
theorem ended_of_finishing {token : Token} {job job' : Job} (hfinishing : op.finishing = true)
    (heffect : FencedEffect s.now job op (some job')) (hfences : token.fences s.now job = true) :
    Ended token.generation job' := by
  have hgeneration := (fences_iff.mp hfences).2.2.1
  generalize hresult : some job' = result at heffect
  cases heffect with
  | renewed | merged | initialized => cases hfinishing
  | completed => cases hresult
  | exhausted | retried | dead =>
    obtain rfl := Option.some.inj hresult
    exact ⟨hgeneration.ge, fun _ => rfl⟩

/-- What is known of the attempts that have ended. -/
structure Attempts (labels : List Label) (s : State) : Prop where
  once : ∀ id generation, (labels.filter (finishes id generation)).length ≤ 1
  ended : ∀ id generation, labels.any (finishes id generation) = true →
    Settled s id ∧ ∀ job ∈ s.jobs, job.id = id → Ended generation job

theorem Attempts.step (h : Attempts labels s) (hwf : WellFormed s)
    (hstep : Step env s (op, response) s') : Attempts (labels ++ [(op, response)]) s' := by
  have hended : ∀ id generation, labels.any (finishes id generation) = true →
      Settled s' id ∧ ∀ job ∈ s'.jobs, job.id = id → Ended generation job := by
    intro id generation hany
    obtain ⟨hsettled, hrows⟩ := h.ended id generation hany
    exact hsettled.step hrows (fun _ _ _ hjob _ heffect => hjob.effect heffect) hstep
  -- the row that a label ends is leased until then, so that no earlier label can have ended it
  have hlast : ∀ id generation, finishes id generation (op, response) = true →
      labels.any (finishes id generation) = false ∧
        Settled s' id ∧ ∀ job ∈ s'.jobs, job.id = id → Ended generation job := by
    intro id generation hfinishes
    obtain ⟨token, htoken, rfl, rfl, hfinishing, heffective⟩ := finishes_eq_true hfinishes
    obtain ⟨row, hrow, hfences, effect, rfl, heffect, heffects, -⟩ := effective_step htoken heffective hstep
    obtain ⟨hid, howner, hgeneration, -, -⟩ := fences_iff.mp hfences
    refine ⟨?_, hid ▸ hwf.settled hrow, fun job' hjob' hjobid => ?_⟩
    · by_contra hany
      obtain ⟨-, hrows⟩ := h.ended token.id token.generation (by simpa using hany)
      have hnone := (hrows row hrow hid).2 hgeneration
      rw [howner] at hnone
      cases hnone
    · obtain ⟨job, hjob, heq⟩ := List.mem_filterMap.mp hjob'
      have hone : Effect env s op job (some job') := heq ▸ heffects job
      obtain rfl := hwf.eq_of_id hjob hrow (hone.keeps.1.symm.trans (hjobid.trans hid.symm))
      rw [heq] at heffect
      exact ended_of_finishing hfinishing heffect hfences
  constructor
  · intro id generation
    rw [List.filter_append, List.length_append]
    by_cases hfinishes : finishes id generation (op, response) = true
    · have hnone := (hlast id generation hfinishes).1
      have hempty : labels.filter (finishes id generation) = [] := by
        rw [List.filter_eq_nil_iff]
        simpa using hnone
      rw [hempty]
      simp [hfinishes]
    · simpa [hfinishes] using h.once id generation
  · intro id generation hany
    rw [List.any_append, Bool.or_eq_true] at hany
    rcases hany with hany | hany
    · exact hended id generation hany
    · exact (hlast id generation (by simpa using hany)).2

theorem attempts_of_run {start : ℤ} (h : Run (Step env) (initial start) labels s) :
    Attempts labels s :=
  h.invariant (P := Attempts) ⟨fun _ _ => Nat.zero_le _, nofun⟩
    fun _ _ _ _ run hattempts hstep => hattempts.step (wellFormed_of_run run) hstep

/-! ### What the workers are told -/

/-- The clock, and for each claim by id and generation the lease that its worker was last told of
    and has not given up. -/
structure Ledger where
  clock : ℤ
  lease : ℕ → ℕ → Option (String × ℤ)

def Ledger.set (ledger : Ledger) (id generation : ℕ) (lease : Option (String × ℤ)) : Ledger :=
  { ledger with lease := fun id' generation' =>
      if id' = id ∧ generation' = generation then lease else ledger.lease id' generation' }

def Ledger.record (ledger : Ledger) : Label → Ledger
  | (.tick elapsed, _) => { ledger with clock := ledger.clock + elapsed }
  | (.claim .., .claimed (some job)) =>
    ledger.set job.id job.generation (some (job.leaseOwner, job.leaseExpiresAt))
  | (.renew id leaseOwner generation leaseMilliseconds, response) =>
    if response.effective then
      ledger.set id generation (some (leaseOwner, ledger.clock + leaseMilliseconds * 1000))
    else ledger
  | (.complete id _ generation, response) =>
    if response.effective then ledger.set id generation none else ledger
  | (.retry job _ _, response) =>
    if response.effective then ledger.set job.id job.generation none else ledger
  | (.deadLetter job _, response) =>
    if response.effective then ledger.set job.id job.generation none else ledger
  | _ => ledger

def ledger (start : ℤ) (labels : List Label) : Ledger :=
  labels.foldl Ledger.record ⟨start, fun _ _ => none⟩

/-- An unexpired lease that a worker was told of is the lease of the row. -/
structure Truthful (l : Ledger) (s : State) : Prop where
  clock : l.clock = s.now
  lease : ∀ id generation leaseOwner expiresAt,
    l.lease id generation = some (leaseOwner, expiresAt) → s.now < expiresAt →
    ∃ job ∈ s.jobs, job.id = id ∧ job.generation = generation ∧
      job.status = .leased leaseOwner expiresAt

theorem held_of_status {job : Job} {leaseOwner : String} {expiresAt now : ℤ}
    (h : job.status = .leased leaseOwner expiresAt) (hnow : now < expiresAt) :
    job.held now = true := by
  simp [Job.held, Job.leaseExpiresAt, h, hnow]

theorem owner_of_status {job : Job} {leaseOwner : String} {expiresAt : ℤ}
    (h : job.status = .leased leaseOwner expiresAt) : job.leaseOwner = some leaseOwner := by
  rw [Job.leaseOwner, h]

theorem owner_of_held {job : Job} {now : ℤ} (h : job.held now = true) : job.leaseOwner ≠ none := by
  cases hstatus : job.status with
  | leased owner expiresAt => simp [Job.leaseOwner, hstatus]
  | waiting | dead => simp [Job.held, Job.leaseExpiresAt, hstatus] at h

variable {l : Ledger}

/-- A claim only takes a row whose lease, if any, has expired. -/
theorem Truthful.claim (h : Truthful l s) (hwf : WellFormed s) {leaseOwner : String}
    {lanes : List Lane} {leaseMilliseconds : ℤ} {skipped : List ℕ} {found : Job}
    (hfound : candidate env s.jobs lanes s.now skipped = some found) :
    Truthful (l.set found.id (found.generation + 1)
      (some (leaseOwner, s.now + leaseMilliseconds * 1000)))
      { s with jobs := s.jobs.map fun job =>
        if job.id = found.id then job.claimed leaseOwner s.now leaseMilliseconds else job } where
  clock := h.clock
  lease id generation owner expiresAt hlease hnow := by
    obtain ⟨hmem, hclaimable⟩ := candidate_mem hfound
    simp only [Ledger.set] at hlease
    split_ifs at hlease with hsame
    · obtain ⟨rfl, rfl⟩ := hsame
      obtain ⟨rfl, rfl⟩ := Prod.mk.inj (Option.some.inj hlease)
      exact ⟨_, List.mem_map_of_mem hmem, by simp [Job.claimed]⟩
    · obtain ⟨job, hjob, hid, hgeneration, hstatus⟩ := h.lease _ _ _ _ hlease hnow
      have hother : job.id ≠ found.id := fun heq => by
        obtain rfl := hwf.eq_of_id hjob hmem heq
        simp [claimable, held_of_status hstatus hnow] at hclaimable
      refine ⟨job, ?_, hid, hgeneration, hstatus⟩
      have hkept := List.mem_map_of_mem (f := fun job : Job => if job.id = found.id then
        job.claimed leaseOwner s.now leaseMilliseconds else job) hjob
      rwa [if_neg hother] at hkept

/-- A statement under the fence leaves the leases of other claims alone. -/
theorem Truthful.others (h : Truthful l s) {token : Token} {effect : Job → Option Job}
    (hother : ∀ job, token.fences s.now job = false → effect job = some job)
    {id generation : ℕ} {leaseOwner : String} {expiresAt : ℤ}
    (hne : ¬(id = token.id ∧ generation = token.generation))
    (hlease : l.lease id generation = some (leaseOwner, expiresAt)) (hnow : s.now < expiresAt) :
    ∃ job ∈ s.jobs.filterMap effect, job.id = id ∧ job.generation = generation ∧
      job.status = .leased leaseOwner expiresAt := by
  obtain ⟨job, hjob, rfl, rfl, hstatus⟩ := h.lease _ _ _ _ hlease hnow
  have hfree : token.fences s.now job = false := by
    rw [Bool.eq_false_iff]
    intro hfences
    obtain ⟨hid, -, hgeneration, -⟩ := fences_iff.mp hfences
    exact hne ⟨hid, hgeneration⟩
  exact ⟨job, List.mem_filterMap.mpr ⟨job, hjob, hother job hfree⟩, rfl, rfl, hstatus⟩

/-- What the worker is told of its own lease after a statement that takes effect. -/
theorem Truthful.set (h : Truthful l s) (token : Token) {effect : Job → Option Job}
    {lease : Option (String × ℤ)}
    (hother : ∀ job, token.fences s.now job = false → effect job = some job)
    (hlease : ∀ leaseOwner expiresAt, lease = some (leaseOwner, expiresAt) →
      ∃ job ∈ s.jobs.filterMap effect, job.id = token.id ∧ job.generation = token.generation ∧
        job.status = .leased leaseOwner expiresAt) :
    Truthful (l.set token.id token.generation lease)
      { s with jobs := s.jobs.filterMap effect } where
  clock := h.clock
  lease id generation leaseOwner expiresAt hset hnow := by
    simp only [Ledger.set] at hset
    split_ifs at hset with hsame
    · obtain ⟨rfl, rfl⟩ := hsame
      exact hlease leaseOwner expiresAt hset
    · exact h.others hother hsame hset hnow

theorem Truthful.patched (h : Truthful l s) (hwf : WellFormed s) {token : Token} {row : Job}
    {effect : Job → Option Job} {arguments : Value} (hrow : row ∈ s.jobs)
    (hfences : token.fences s.now row = true)
    (heffect : effect row = some { row with arguments := arguments })
    (hother : ∀ job, token.fences s.now job = false → effect job = some job) :
    Truthful l { s with jobs := s.jobs.filterMap effect } where
  clock := h.clock
  lease id generation leaseOwner expiresAt hlease hnow := by
    by_cases hsame : id = token.id ∧ generation = token.generation
    · obtain ⟨job, hjob, hid, hgeneration, hstatus⟩ := h.lease _ _ _ _ hlease hnow
      obtain rfl := hwf.eq_of_id hjob hrow
        (hid.trans (hsame.1.trans (fences_iff.mp hfences).1.symm))
      exact ⟨_, List.mem_filterMap.mpr ⟨job, hjob, heffect⟩, hid, hgeneration, hstatus⟩
    · exact h.others hother hsame hlease hnow

theorem Truthful.effective (h : Truthful l s) (hwf : WellFormed s) {token : Token}
    (htoken : op.token = some token) (heffective : response.effective = true)
    (hstep : Step env s (op, response) s') : Truthful (l.record (op, response)) s' := by
  obtain ⟨row, hrow, hfences, effect, rfl, heffect, -, hother⟩ :=
    effective_step htoken heffective hstep
  obtain ⟨hid, -, hgeneration, -, -⟩ := fences_iff.mp hfences
  generalize hresult : effect row = result at heffect
  cases heffect with
  | renewed id leaseOwner generation leaseMilliseconds =>
    obtain rfl := Option.some.inj htoken
    simp only [Ledger.record, if_pos heffective, h.clock]
    refine h.set ⟨id, leaseOwner, generation⟩ hother fun owner expiresAt hlease => ?_
    obtain ⟨rfl, rfl⟩ := Prod.mk.inj (Option.some.inj hlease)
    exact ⟨_, List.mem_filterMap.mpr ⟨row, hrow, hresult⟩, hid, hgeneration, rfl⟩
  | merged | initialized => exact h.patched hwf hrow hfences hresult hother
  | completed =>
    obtain rfl := Option.some.inj htoken
    simp only [Ledger.record, if_pos heffective]
    exact h.set ⟨_, _, _⟩ hother nofun
  | exhausted | retried | dead =>
    obtain rfl := Option.some.inj htoken
    simp only [Ledger.record, if_pos heffective]
    exact h.set _ hother nofun

theorem Ledger.record_ineffective {token : Token} (htoken : op.token = some token)
    (heffective : response.effective = false) : l.record (op, response) = l := by
  cases op with
  | renew | complete | retry | deadLetter =>
    simp only [Ledger.record, heffective]
    rfl
  | mergeJobArguments | initializeJobArguments => rfl
  | _ => cases htoken

theorem Ledger.record_transact (hstatement : Queue.statement env s op = none)
    (hop : ∀ elapsed, op ≠ .tick elapsed) : l.record (op, response) = l := by
  cases op with
  | tick elapsed => exact absurd rfl (hop elapsed)
  | claim | renew | mergeJobArguments | initializeJobArguments | complete | retry | deadLetter
  | cancelJobs => cases hstatement
  | _ => rfl

theorem Ledger.record_claimOf {claimed : ClaimedJob} (h : claimOf (op, response) = some claimed) :
    l.record (op, response) =
      l.set claimed.id claimed.generation (some (claimed.leaseOwner, claimed.leaseExpiresAt)) := by
  cases op with
  | claim =>
    cases response with
    | claimed job =>
      obtain rfl : job = some claimed := h
      rfl
    | _ => cases h
  | _ => cases h

theorem Truthful.step (h : Truthful l s) (hwf : WellFormed s)
    (hstep : Step env s (op, response) s') : Truthful (l.record (op, response)) s' := by
  cases hclaim : claimOf (op, response) with
  | some claimed =>
    obtain ⟨leaseOwner, lanes, leaseMilliseconds, skipped, found, rfl, hfound, rfl, rfl⟩ :=
      claimOf_eq_some hclaim hstep
    rw [Ledger.record_claimOf hclaim]
    exact h.claim hwf hfound
  | none =>
    rcases step_cases hstep with ⟨statement, hstatement, rfl, rfl⟩ | ⟨hstatement, htransact⟩
    · rcases statement_cases hstatement with
        ⟨leaseOwner, lanes, leaseMilliseconds, skipped, rfl, rfl⟩ | ⟨kind, logicalKey, rfl, rfl⟩ |
        ⟨token, htoken⟩
      · rcases claim_cases env s.jobs s.now leaseOwner lanes leaseMilliseconds skipped with
          ⟨answer, heq, hanswer⟩ | ⟨found, -, -, heq⟩
        · rw [heq, Statement.skip, List.filterMap_some]
          cases answer with
          | claimed job =>
            cases job with
            | none => exact h
            | some job => exact absurd rfl (hanswer job)
          | _ => exact h
        · rw [heq] at hclaim
          cases hclaim
      · refine ⟨h.clock, fun id generation owner expiresAt hlease hnow => ?_⟩
        obtain ⟨job, hjob, hid, hgeneration, hstatus⟩ := h.lease _ _ _ _ hlease hnow
        have hkept : cancellable s.now kind logicalKey job = false := by
          simp [cancellable, owner_of_status hstatus, held_of_status hstatus hnow]
        refine ⟨job, List.mem_filterMap.mpr ⟨job, hjob, ?_⟩, hid, hgeneration, hstatus⟩
        rw [cancelJobs]
        exact if_neg (by simp [hkept])
      · cases heffective : statement.response.effective with
        | true => exact h.effective hwf htoken heffective hstep
        | false =>
          rw [Ledger.record_ineffective htoken heffective]
          rwa [ineffective_unchanged htoken heffective hstep]
    · rcases transact_jobsChange htransact with ⟨elapsed, rfl, rfl⟩ | ⟨hop, hchange⟩
      · refine ⟨by simp [Ledger.record, h.clock], fun id generation owner expiresAt hlease hnow => ?_⟩
        exact h.lease _ _ _ _ hlease (by simp only at hnow; omega)
      · rw [Ledger.record_transact hstatement hop]
        have hkept : s'.now = s.now ∧ ∀ job ∈ s.jobs, job ∈ s'.jobs := by
          cases hchange with
          | frame hnow hjobs => exact ⟨hnow, fun _ hjob => hjobs ▸ hjob⟩
          | inserted t spec hnow hjobs => exact ⟨hnow, fun _ hjob => hjobs ▸ hjob⟩
          | committed t hnow hjobs =>
            exact ⟨hnow, fun _ hjob => hjobs ▸ List.mem_append_left _ hjob⟩
          | rolledBack t hnow hjobs => exact ⟨hnow, fun _ hjob => hjobs ▸ hjob⟩
        refine ⟨h.clock.trans hkept.1.symm, fun id generation owner expiresAt hlease hnow => ?_⟩
        obtain ⟨job, hjob, hrest⟩ := h.lease _ _ _ _ hlease (hkept.1 ▸ hnow)
        exact ⟨job, hkept.2 job hjob, hrest⟩

theorem truthful_of_run {start : ℤ} (h : Run (Step env) (initial start) labels s) :
    Truthful (ledger start labels) s := by
  refine h.invariant (P := fun labels s => Truthful (ledger start labels) s)
    ⟨rfl, nofun⟩ fun labels s' label s'' run hl hstep => ?_
  rw [ledger, List.foldl_append]
  exact hl.step (wellFormed_of_run run) hstep

/-! ### Lease fencing -/

/-- What holds of the leases in a state with its history. -/
structure LeaseFencing (env : Env) (start : ℤ) (labels : List Label) (s : State) : Prop where
  /-- A mutation takes effect only with the lease of a live row that has not expired, and no claim
      of the row has come after the claim that it proves. -/
  fenced : ∀ op token response s', op.token = some token → Step env s (op, response) s' →
    response.effective = true →
    (∃ job ∈ s.jobs, job.id = token.id ∧ job.leaseOwner = some token.leaseOwner ∧
      job.generation = token.generation ∧ job.live = true ∧ job.held s.now = true) ∧
    ∀ claimed post, (∃ pre, labels.filterMap claimOf = pre ++ claimed :: post) →
      claimed.token = token → ∀ later ∈ post, later.id ≠ token.id
  /-- Without effect it changes nothing. -/
  stale : ∀ op token response s', op.token = some token → Step env s (op, response) s' →
    response.effective = false → s' = s
  /-- At most one of `complete`, `retry` and `dead_letter` ends a claim. -/
  once : ∀ id generation, (labels.filter (finishes id generation)).length ≤ 1
  /-- Two unexpired leases of one row, as the workers were told, are one. -/
  exclusive : ∀ id generation generation' leaseOwner leaseOwner' expiresAt expiresAt',
    (ledger start labels).lease id generation = some (leaseOwner, expiresAt) → s.now < expiresAt →
    (ledger start labels).lease id generation' = some (leaseOwner', expiresAt') →
    s.now < expiresAt' → generation = generation' ∧ leaseOwner = leaseOwner'
  /-- `cancel` deletes no row with an unexpired lease. -/
  cancel : ∀ kind logicalKey response s', Step env s (.cancelJobs kind logicalKey, response) s' →
    ∀ job ∈ s.jobs, job.held s.now = true → job ∈ s'.jobs
  /-- A claim takes a live row whose lease is free or expired, and its generation is a new one. -/
  claims : ∀ op response s' claimed, Step env s (op, response) s' →
    claimOf (op, response) = some claimed →
    (∃ job ∈ s.jobs, job.id = claimed.id ∧ job.live = true ∧ job.held s.now = false ∧
      claimed.generation = job.generation + 1) ∧
    ∀ earlier ∈ labels.filterMap claimOf, earlier.id = claimed.id →
      earlier.generation < claimed.generation

theorem later_ne_of_fences (hclaims : Claims labels s) {token : Token} {row : Job}
    (hrow : row ∈ s.jobs) (hfences : token.fences s.now row = true) {claimed : ClaimedJob}
    {pre post : List ClaimedJob} (hlist : labels.filterMap claimOf = pre ++ claimed :: post)
    (htoken : claimed.token = token) : ∀ later ∈ post, later.id ≠ token.id := by
  intro later hlater hid
  obtain ⟨hrowid, -, hgeneration, -⟩ := fences_iff.mp hfences
  have hincreasing := hclaims.increasing
  rw [hlist, List.pairwise_append, List.pairwise_cons] at hincreasing
  have hclaimed : claimed.id = token.id ∧ claimed.generation = token.generation :=
    ⟨congrArg Token.id htoken, congrArg Token.generation htoken⟩
  have hlt := hincreasing.2.1.1 later hlater (hclaimed.1.trans hid.symm)
  have hmem : later ∈ labels.filterMap claimOf := by
    rw [hlist]
    exact List.mem_append_right _ (List.mem_cons_of_mem _ hlater)
  have hle := (hclaims.known later hmem).2 row hrow (hrowid.trans hid.symm)
  omega

theorem cancel_keeps_held {kind logicalKey : String}
    (hstep : Step env s (.cancelJobs kind logicalKey, response) s') {job : Job}
    (hjob : job ∈ s.jobs) (hheld : job.held s.now = true) : job ∈ s'.jobs := by
  obtain ⟨rfl, -⟩ := Prod.mk.inj (Option.some.inj hstep)
  have howner := owner_of_held hheld
  refine List.mem_filterMap.mpr ⟨job, hjob, ?_⟩
  rw [cancelJobs]
  exact if_neg (by simp [cancellable, howner, hheld])

/-- CORRECT (lease fencing): in every state that a run of any workers and transactions reaches. -/
theorem lease_fencing (env : Env) (start : ℤ) (labels : List Label) (s : State)
    (h : Run (Step env) (initial start) labels s) : LeaseFencing env start labels s := by
  have hwf := wellFormed_of_run h
  have hclaims := claims_of_run h
  have htruthful := truthful_of_run h
  constructor
  · intro op token response s' htoken hstep heffective
    obtain ⟨row, hrow, hfences, -⟩ := effective_step htoken heffective hstep
    refine ⟨⟨row, hrow, fences_iff.mp hfences⟩, ?_⟩
    rintro claimed post ⟨pre, hlist⟩ hclaimed
    exact later_ne_of_fences hclaims hrow hfences hlist hclaimed
  · intro op token response s' htoken hstep heffective
    exact ineffective_unchanged htoken heffective hstep
  · exact (attempts_of_run h).once
  · intro id generation generation' leaseOwner leaseOwner' expiresAt expiresAt' hlease hnow hlease'
      hnow'
    obtain ⟨job, hjob, hid, rfl, hstatus⟩ := htruthful.lease _ _ _ _ hlease hnow
    obtain ⟨job', hjob', hid', rfl, hstatus'⟩ := htruthful.lease _ _ _ _ hlease' hnow'
    obtain rfl := hwf.eq_of_id hjob hjob' (hid.trans hid'.symm)
    rw [hstatus] at hstatus'
    exact ⟨rfl, (Status.leased.inj hstatus').1⟩
  · intro kind logicalKey response s' hstep job hjob hheld
    exact cancel_keeps_held hstep hjob hheld
  · intro op response s' claimed hstep hclaim
    obtain ⟨leaseOwner, lanes, leaseMilliseconds, skipped, found, -, hfound, rfl, -⟩ :=
      claimOf_eq_some hclaim hstep
    obtain ⟨hmem, hclaimable⟩ := candidate_mem hfound
    simp only [claimable, Bool.and_eq_true, Bool.not_eq_true', and_assoc] at hclaimable
    refine ⟨⟨found, hmem, rfl, hclaimable.1, hclaimable.2.2.1, rfl⟩, fun earlier hearlier hid => ?_⟩
    exact Nat.lt_succ_of_le ((hclaims.known earlier hearlier).2 found hmem hid.symm)

/-- An environment whose only instant is the epoch. -/
def epochEnv : Env where
  toRfc3339 _ := "1970-01-01T00:00:00+00:00"
  parseRfc3339 text := if text = "1970-01-01T00:00:00+00:00" then some 0 else none
  sha256 _ := []
  jsonbText _ := ""

def mailSpec : JobSpec := ⟨.mail, "rustodon.mail.confirmation", .object [], some "1", 0, 25⟩

/-- A second worker takes over after the lease of the first, whose acknowledgement comes late. -/
def takeover : List Op :=
  [.enqueue 0 mailSpec, .commit 0, .claim "a" [.mail] 1000 [], .tick 1000000,
    .claim "b" [.mail] 1000 [], .complete 1 "a" 1, .complete 1 "b" 2]

theorem lease_fencing_takeover : ∃ labels s,
    exec epochEnv (initial 0) takeover = some (labels, s) ∧
    (labels.filterMap claimOf).map ClaimedJob.generation = [1, 2] ∧
    LeaseFencing epochEnv 0 labels s := by
  have hgenerations : ((exec epochEnv (initial 0) takeover).map fun result =>
      (result.1.filterMap claimOf).map ClaimedJob.generation) = some [1, 2] := by decide
  obtain ⟨⟨labels, s⟩, hexec, hlist⟩ := Option.map_eq_some_iff.mp hgenerations
  exact ⟨labels, s, hexec, hlist, lease_fencing _ _ _ _ (exec_run _ hexec)⟩

end Rustodon.Queue
